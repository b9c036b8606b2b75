import Mathlib.Data.List.Basic
import Mathlib.Data.List.TakeDrop

/-! XML documents of elements that hold either text or further elements: the indented text of a
document and a reader that undoes it. -/

namespace InvoiceOs.Lib

inductive Xml where
  | leaf (name : String) (attrs : List (String × String)) (text : String)
  | node (name : String) (attrs : List (String × String)) (children : List Xml)

namespace Xml

/-! ### Writing -/

def inCharacterRange (c : Char) : Bool :=
  let n := c.toNat
  n == 9 || n == 10 || n == 13 || (0x20 ≤ n && n ≤ 0xD7FF) || (0xE000 ≤ n && n ≤ 0xFFFD) ||
    (0x10000 ≤ n && n ≤ 0x10FFFF)

def references : List (Char × String) :=
  [('\x22', "#34"), ('\x27', "#39"), ('&', "amp"), ('<', "lt"), ('>', "gt"), ('\t', "#x9"),
    ('\n', "#xA"), ('\r', "#xD")]

def escapeChar (c : Char) : List Char :=
  match references.find? fun r => r.1 = c with
  | some r => '&' :: (r.2.toList ++ [';'])
  | none => if inCharacterRange c then [c] else ['\uFFFD']

def escape (s : List Char) : List Char := s.flatMap escapeChar

def writeAttr (a : String × String) : List Char :=
  ' ' :: (a.1.toList ++ '=' :: '\x22' :: (escape a.2.toList ++ ['\x22']))

def startTag (name : String) (attrs : List (String × String)) : List Char :=
  '<' :: (name.toList ++ (attrs.flatMap writeAttr ++ ['>']))

def endTag (name : String) : List Char := '<' :: '/' :: (name.toList ++ ['>'])

def newline (depth : ℕ) : List Char := '\n' :: List.replicate (2 * depth) ' '

mutual

def write (depth : ℕ) : Xml → List Char
  | leaf name attrs text => startTag name attrs ++ (escape text.toList ++ endTag name)
  | node name attrs children =>
    startTag name attrs ++
      (if children.isEmpty then [] else writeAll (depth + 1) children ++ newline depth) ++
        endTag name

def writeAll (depth : ℕ) : List Xml → List Char
  | [] => []
  | x :: xs => newline depth ++ (write depth x ++ writeAll depth xs)

end

/-! ### Reading -/

/-- Text with its references resolved, the name of the one being read held reversed. -/
def unescape : Option (List Char) → List Char → Option (List Char)
  | none, [] => some []
  | some _, [] => none
  | none, c :: s => if c = '&' then unescape (some []) s else (unescape none s).map (c :: ·)
  | some name, c :: s =>
    if c = ';' then
      (references.find? fun r => r.2.toList = name.reverse).bind fun r =>
        (unescape none s).map (r.1 :: ·)
    else unescape (some (c :: name)) s

def readText (s : List Char) : Option String := (unescape none s).map String.ofList

/-- The part in front of a stop character, and what stands behind that character. -/
def cut (stop : Char) (s : List Char) : Option (List Char × List Char) :=
  match s.dropWhile (· ≠ stop) with
  | [] => none
  | _ :: rest => some (s.takeWhile (· ≠ stop), rest)

def readAttrs : ℕ → List Char → Option (List (String × String) × List Char)
  | 0, _ => none
  | fuel + 1, s =>
    match s with
    | '>' :: s => some ([], s)
    | ' ' :: s => do
      let (key, s) ← cut '=' s
      let (_, s) ← cut '\x22' s
      let (value, s) ← cut '\x22' s
      let value ← readText value
      let (attrs, s) ← readAttrs fuel s
      return ((String.ofList key, value) :: attrs, s)
    | _ => none

def inName (c : Char) : Bool := c ≠ ' ' && c ≠ '>' && c ≠ '=' && c ≠ '/'

def readStart (s : List Char) : Option (String × List (String × String) × List Char) :=
  match s with
  | '<' :: s => do
    let (attrs, rest) ← readAttrs s.length (s.dropWhile inName)
    return (String.ofList (s.takeWhile inName), attrs, rest)
  | _ => none

def closes : List Char → Bool
  | '<' :: '/' :: _ => true
  | _ => false

def readEnd (name : String) (s : List Char) : Option (List Char) :=
  if (endTag name).isPrefixOf s then some (s.drop (endTag name).length) else none

def isBlank (c : Char) : Bool := c = ' ' || c = '\n'

mutual

def readElement : ℕ → List Char → Option (Xml × List Char)
  | 0, _ => none
  | fuel + 1, s => do
    let (name, attrs, s) ← readStart s
    if closes (s.dropWhile (· ≠ '<')) then
      let text ← readText (s.takeWhile (· ≠ '<'))
      let rest ← readEnd name (s.dropWhile (· ≠ '<'))
      return (leaf name attrs text, rest)
    else
      let (children, s) ← readChildren fuel s
      let rest ← readEnd name s
      return (node name attrs children, rest)

def readChildren : ℕ → List Char → Option (List Xml × List Char)
  | 0, _ => none
  | fuel + 1, s =>
    let s := s.dropWhile isBlank
    if closes s then some ([], s)
    else do
      let (x, s) ← readElement fuel s
      let (xs, s) ← readChildren fuel s
      return (x :: xs, s)

end

/-! ### What can be read back -/

def IsText (s : String) : Prop := ∀ c ∈ s.toList, inCharacterRange c = true

def IsName (s : String) : Prop := ∀ c ∈ s.toList, inName c = true

structure IsTag (name : String) (attrs : List (String × String)) : Prop where
  name : IsName name
  keys : ∀ a ∈ attrs, IsName a.1
  values : ∀ a ∈ attrs, IsText a.2

/-- Names are names, texts are texts, and only an element with text may hold no element. -/
inductive WellFormed : Xml → Prop
  | leaf {name attrs text} (tag : IsTag name attrs) (chars : IsText text) :
    WellFormed (leaf name attrs text)
  | node {name attrs children} (tag : IsTag name attrs) (nonempty : children ≠ [])
    (inner : ∀ x ∈ children, WellFormed x) : WellFormed (node name attrs children)

/-! ### References -/

theorem unescape_reference {r : Char × String} (hr : r ∈ references) (s : List Char) :
    unescape none ('&' :: (r.2.toList ++ ';' :: s)) = (unescape none s).map (r.1 :: ·) := by
  simp only [references, List.mem_cons, List.not_mem_nil, or_false] at hr
  obtain rfl | rfl | rfl | rfl | rfl | rfl | rfl | rfl := hr <;> rfl

theorem escapeChar_ne {c d : Char} (hc : inCharacterRange c = true) (hd : d ∈ escapeChar c) :
    d ≠ '<' ∧ d ≠ '\x22' := by
  unfold escapeChar at hd
  split at hd
  · rename_i r hr
    have hnames : (references.all fun r => ('&' :: (r.2.toList ++ [';'])).all fun d =>
        d ≠ '<' && d ≠ '\x22') = true := rfl
    have hname := List.all_eq_true.mp hnames r (List.mem_of_find?_eq_some hr)
    simpa using List.all_eq_true.mp hname d hd
  · rename_i hr
    rw [if_pos hc, List.mem_singleton] at hd
    subst hd
    have hother := List.find?_eq_none.mp hr
    exact ⟨fun h => hother ('<', "lt") (by decide) (by simp [h]),
      fun h => hother ('\x22', "#34") (by decide) (by simp [h])⟩

theorem unescape_escapeChar {c : Char} (hc : inCharacterRange c = true) (s : List Char) :
    unescape none (escapeChar c ++ s) = (unescape none s).map (c :: ·) := by
  unfold escapeChar
  split
  · rename_i r hr
    have hkey : r.1 = c := by simpa using List.find?_some hr
    rw [List.cons_append, List.append_assoc, List.singleton_append,
      unescape_reference (List.mem_of_find?_eq_some hr), hkey]
  · rename_i hr
    have hamp : c ≠ '&' := fun h =>
      List.find?_eq_none.mp hr ('&', "amp") (by decide) (by simp [h])
    rw [if_pos hc, List.singleton_append, unescape, if_neg hamp]

theorem unescape_escape {s : List Char} (hs : ∀ c ∈ s, inCharacterRange c = true) :
    unescape none (escape s) = some s := by
  induction s with
  | nil => rfl
  | cons c s ih =>
    have hrest := ih fun d hd => hs d (List.mem_cons_of_mem c hd)
    rw [escape, List.flatMap_cons, unescape_escapeChar (hs c List.mem_cons_self)]
    exact congrArg (Option.map (c :: ·)) hrest

theorem readText_escape {s : String} (hs : IsText s) : readText (escape s.toList) = some s := by
  rw [readText, unescape_escape hs, Option.map_some, String.ofList_toList]

theorem mem_escape {s : String} (hs : IsText s) {d : Char} (hd : d ∈ escape s.toList) :
    d ≠ '<' ∧ d ≠ '\x22' := by
  obtain ⟨c, hc, hd⟩ := List.mem_flatMap.mp hd
  exact escapeChar_ne (hs c hc) hd

/-! ### Tags -/

theorem takeWhile_stop {p : Char → Bool} {s : List Char} (hs : ∀ c ∈ s, p c = true) {stop : Char}
    (hstop : p stop = false) (rest : List Char) :
    (s ++ stop :: rest).takeWhile p = s ∧ (s ++ stop :: rest).dropWhile p = stop :: rest := by
  constructor
  · rw [List.takeWhile_append_of_pos hs, List.takeWhile_cons_of_neg (by simp [hstop]),
      List.append_nil]
  · rw [List.dropWhile_append_of_pos hs, List.dropWhile_cons_of_neg (by simp [hstop])]

theorem cut_stop {stop : Char} {s : List Char} (hs : ∀ c ∈ s, c ≠ stop) (rest : List Char) :
    cut stop (s ++ stop :: rest) = some (s, rest) := by
  obtain ⟨htake, hdrop⟩ := takeWhile_stop (p := fun c => decide (c ≠ stop))
    (fun c hc => decide_eq_true (hs c hc)) (decide_eq_false (not_not_intro rfl)) rest
  unfold cut
  rw [htake, hdrop]

theorem IsName.ne (h : IsName s) {c d : Char} (hc : c ∈ s.toList) (hd : inName d = false) :
    c ≠ d := by
  rintro rfl
  rw [h c hc] at hd
  cases hd

theorem readAttrs_write {attrs : List (String × String)} (hkeys : ∀ a ∈ attrs, IsName a.1)
    (hvalues : ∀ a ∈ attrs, IsText a.2) (rest : List Char) {fuel : ℕ} (hfuel : attrs.length < fuel) :
    readAttrs fuel (attrs.flatMap writeAttr ++ '>' :: rest) = some (attrs, rest) := by
  induction attrs generalizing fuel with
  | nil =>
    obtain ⟨fuel, rfl⟩ : ∃ n, fuel = n + 1 := ⟨fuel - 1, by omega⟩
    rfl
  | cons a attrs ih =>
    obtain ⟨fuel, rfl⟩ : ∃ n, fuel = n + 1 := ⟨fuel - 1, by omega⟩
    have hmore := ih (fun b hb => hkeys b (List.mem_cons_of_mem _ hb))
      (fun b hb => hvalues b (List.mem_cons_of_mem _ hb)) (Nat.lt_of_succ_lt_succ hfuel)
    have hkey : ∀ c ∈ a.1.toList, c ≠ '=' := fun c hc =>
      (hkeys a List.mem_cons_self).ne hc (by decide)
    have hvalue : ∀ c ∈ escape a.2.toList, c ≠ '\x22' := fun c hc =>
      (mem_escape (hvalues a List.mem_cons_self) hc).2
    have hopen : ∀ s, cut '\x22' ('\x22' :: s) = some ([], s) := fun s =>
      cut_stop (s := []) (fun c hc => absurd hc List.not_mem_nil) s
    rw [List.flatMap_cons, writeAttr]
    simp only [List.cons_append, List.append_assoc, List.nil_append]
    rw [readAttrs]
    simp only [cut_stop hkey, hopen, cut_stop hvalue, hmore,
      readText_escape (hvalues a List.mem_cons_self), String.ofList_toList, Option.bind_eq_bind,
      Option.bind_some, Option.pure_def]

theorem attrs_head (attrs : List (String × String)) (rest : List Char) :
    ∃ stop more, attrs.flatMap writeAttr ++ '>' :: rest = stop :: more ∧ inName stop = false := by
  cases attrs with
  | nil => exact ⟨'>', rest, rfl, by decide⟩
  | cons a attrs => exact ⟨' ', _, rfl, by decide⟩

theorem readStart_startTag {name : String} {attrs : List (String × String)} (h : IsTag name attrs)
    (rest : List Char) : readStart (startTag name attrs ++ rest) = some (name, attrs, rest) := by
  have hshape : startTag name attrs ++ rest =
      '<' :: (name.toList ++ (attrs.flatMap writeAttr ++ '>' :: rest)) := by
    simp only [startTag, List.cons_append, List.append_assoc, List.nil_append]
  obtain ⟨stop, more, hhead, hstop⟩ := attrs_head attrs rest
  obtain ⟨htake, hdrop⟩ := takeWhile_stop h.name hstop more
  have hlength : ∀ attrs : List (String × String), attrs.length ≤ (attrs.flatMap writeAttr).length := by
    intro attrs
    induction attrs with
    | nil => exact Nat.le_refl 0
    | cons a attrs ih =>
      rw [List.flatMap_cons, List.length_append, List.length_cons, writeAttr, List.length_cons]
      omega
  have hfuel : attrs.length < (name.toList ++ stop :: more).length := by
    have hsize := hlength attrs
    rw [← hhead, List.length_append, List.length_append, List.length_cons]
    omega
  have hattrs := readAttrs_write h.keys h.values rest hfuel
  rw [hhead] at hattrs
  rw [hshape, hhead, readStart]
  simp only [hdrop, htake, hattrs, String.ofList_toList, Option.bind_eq_bind, Option.bind_some,
    Option.pure_def]

theorem isPrefixOf_append (s rest : List Char) : s.isPrefixOf (s ++ rest) = true := by
  rw [ List.isPrefixOf_iff_prefix]
  exact ⟨rest, rfl⟩

theorem readEnd_endTag (name : String) (rest : List Char) :
    readEnd name (endTag name ++ rest) = some rest := by
  rw [readEnd, if_pos (isPrefixOf_append _ _),
    List.drop_left]

/-! ### Elements -/

theorem write_head {x : Xml} (hx : x.WellFormed) (depth : ℕ) :
    ∃ c s, x.write depth = '<' :: c :: s ∧ c ≠ '/' := by
  have htag : ∀ (name : String) (attrs : List (String × String)), IsTag name attrs →
      ∃ c s, startTag name attrs = '<' :: c :: s ∧ c ≠ '/' := by
    intro name attrs h
    rw [startTag]
    cases hname : name.toList with
    | nil =>
      obtain ⟨stop, more, hhead, -⟩ := attrs_head attrs []
      cases attrs with
      | nil => exact ⟨'>', [], rfl, by decide⟩
      | cons a attrs => exact ⟨' ', _, rfl, by decide⟩
    | cons c cs => exact ⟨c, _, rfl, h.name.ne (hname ▸ List.mem_cons_self) (by decide)⟩
  cases hx with
  | leaf tag chars =>
    obtain ⟨c, s, hstart, hc⟩ := htag _ _ tag
    rw [write, hstart]
    exact ⟨c, _, rfl, hc⟩
  | node tag nonempty inner =>
    obtain ⟨c, s, hstart, hc⟩ := htag _ _ tag
    rw [write, hstart]
    exact ⟨c, _, rfl, hc⟩

theorem dropWhile_newline (depth : ℕ) (s : List Char) :
    (newline depth ++ '<' :: s).dropWhile isBlank = '<' :: s := by
  refine (takeWhile_stop (fun c hc => ?_) (by decide) s).2
  obtain rfl | hc := List.mem_cons.mp hc
  · rfl
  · rw [List.eq_of_mem_replicate hc]
    rfl

def Reads (x : Xml) : Prop :=
  ∀ depth rest fuel, (x.write depth).length ≤ fuel →
    readElement fuel (x.write depth ++ rest) = some (x, rest)

theorem readChildren_write {xs : List Xml} (hwell : ∀ x ∈ xs, x.WellFormed)
    (hreads : ∀ x ∈ xs, x.Reads) (depth outer : ℕ) (name : String) (rest : List Char) {fuel : ℕ}
    (hfuel : (writeAll depth xs ++ newline outer).length ≤ fuel) :
    readChildren fuel (writeAll depth xs ++ (newline outer ++ (endTag name ++ rest))) =
      some (xs, endTag name ++ rest) := by
  induction xs generalizing fuel with
  | nil =>
    obtain ⟨fuel, rfl⟩ : ∃ n, fuel = n + 1 := ⟨fuel - 1, by simp [writeAll, newline] at hfuel; omega⟩
    rw [writeAll, List.nil_append, readChildren, endTag, List.cons_append, dropWhile_newline]
    rfl
  | cons x xs ih =>
    obtain ⟨c, s, hhead, hc⟩ := write_head (hwell x List.mem_cons_self) depth
    simp only [writeAll, List.append_assoc, List.length_append] at hfuel
    have hline : 1 ≤ (newline depth).length := by
      rw [newline, List.length_cons]
      omega
    obtain ⟨fuel, rfl⟩ : ∃ n, fuel = n + 1 := ⟨fuel - 1, by omega⟩
    have hmore := @ih (fun y hy => hwell y (List.mem_cons_of_mem x hy))
      (fun y hy => hreads y (List.mem_cons_of_mem x hy)) fuel (by rw [List.length_append]; omega)
    have hx := hreads x List.mem_cons_self depth
      (writeAll depth xs ++ (newline outer ++ (endTag name ++ rest))) fuel (by omega)
    have hopen : closes (x.write depth ++
        (writeAll depth xs ++ (newline outer ++ (endTag name ++ rest)))) = false := by
      rw [hhead, List.cons_append, List.cons_append, closes]
      · rintro s' hs'
        exact hc (List.cons.inj (List.cons.inj hs').2).1
    have hblank : (newline depth ++ (x.write depth ++
        (writeAll depth xs ++ (newline outer ++ (endTag name ++ rest))))).dropWhile isBlank =
        x.write depth ++ (writeAll depth xs ++ (newline outer ++ (endTag name ++ rest))) := by
      rw [hhead]
      exact dropWhile_newline depth _
    rw [writeAll, List.append_assoc, List.append_assoc, readChildren]
    dsimp only
    rw [hblank, hopen, if_neg Bool.false_ne_true, hx]
    simp only [hmore, Option.bind_eq_bind, Option.bind_some, Option.pure_def]

theorem WellFormed.reads {x : Xml} (hx : x.WellFormed) : x.Reads := by
  induction hx with
  | @leaf name attrs text tag chars =>
    intro depth rest fuel hfuel
    obtain ⟨fuel, rfl⟩ : ∃ n, fuel = n + 1 :=
      ⟨fuel - 1, by simp only [write, startTag, List.cons_append, List.length_cons] at hfuel; omega⟩
    obtain ⟨htake, hdrop⟩ := takeWhile_stop (p := fun c => decide (c ≠ '<'))
      (fun c hc => decide_eq_true (mem_escape chars hc).1) (decide_eq_false (not_not_intro rfl))
      ('/' :: (name.toList ++ ['>']) ++ rest)
    have hend : '<' :: ('/' :: (name.toList ++ ['>']) ++ rest) = endTag name ++ rest := rfl
    rw [hend] at htake hdrop
    have hclose : closes (endTag name ++ rest) = true := rfl
    rw [write, List.append_assoc, List.append_assoc, readElement, readStart_startTag tag]
    simp only [Option.bind_eq_bind, Option.bind_some, htake, hdrop, hclose, if_true,
      readText_escape chars, readEnd_endTag, Option.pure_def]
  | @node name attrs children tag nonempty inner ih =>
    intro depth rest fuel hfuel
    have hopen : children.isEmpty = false := List.isEmpty_eq_false_iff.mpr nonempty
    simp only [write, hopen, Bool.false_eq_true, if_false, List.append_assoc, List.length_append]
      at hfuel
    have hstart : 1 ≤ (startTag name attrs).length := by
      rw [startTag, List.length_cons]
      omega
    obtain ⟨fuel, rfl⟩ : ∃ n, fuel = n + 1 := ⟨fuel - 1, by omega⟩
    have hsize : (writeAll (depth + 1) children ++ newline depth).length ≤ fuel := by
      rw [List.length_append]
      omega
    have hchildren := readChildren_write inner ih (depth + 1) depth name rest hsize
    have hfirst : closes ((writeAll (depth + 1) children ++
        (newline depth ++ (endTag name ++ rest))).dropWhile fun c => decide (c ≠ '<')) = false := by
      cases children with
      | nil => exact absurd rfl nonempty
      | cons y ys =>
        obtain ⟨c, s, hhead, hc⟩ := write_head (inner y List.mem_cons_self) (depth + 1)
        have hline : ∀ s', ((newline (depth + 1) ++ '<' :: s').dropWhile
            fun c => decide (c ≠ '<')) = '<' :: s' := by
          intro s'
          refine (takeWhile_stop (fun c hc => ?_) (by simp) s').2
          obtain rfl | hc := List.mem_cons.mp hc
          · rfl
          · rw [List.eq_of_mem_replicate hc]
            rfl
        rw [writeAll, hhead]
        simp only [List.append_assoc, List.cons_append, hline]
        rw [closes]
        rintro s' hs'
        exact hc (List.cons.inj (List.cons.inj hs').2).1
    rw [write, hopen, if_neg Bool.false_ne_true]
    simp only [List.append_assoc]
    rw [readElement, readStart_startTag tag]
    simp only [Option.bind_eq_bind, Option.bind_some, hfirst, Bool.false_eq_true, if_false,
      hchildren, readEnd_endTag, Option.pure_def]

/-! ### Documents -/

def header : List Char := "<?xml version=\"1.0\" encoding=\"UTF-8\"?>\n".toList

def document (x : Xml) : String := String.ofList (header ++ x.write 0)

def parse (text : String) : Option Xml :=
  if header.isPrefixOf text.toList then
    match readElement text.toList.length (text.toList.drop header.length) with
    | some (x, []) => some x
    | _ => none
  else none

theorem parse_document {x : Xml} (hx : x.WellFormed) : parse (document x) = some x := by
  have hread := hx.reads 0 [] (header ++ x.write 0).length
    (by rw [List.length_append]; omega)
  rw [List.append_nil] at hread
  rw [parse, document, String.toList_ofList,
    if_pos (isPrefixOf_append _ _), List.drop_left, hread]

/-! ### Finding elements -/

def name : Xml → String
  | leaf name _ _ => name
  | node name _ _ => name

def attr (key : String) : Xml → Option String
  | leaf _ attrs _ => attrs.lookup key
  | node _ attrs _ => attrs.lookup key

def text : Xml → Option String
  | leaf _ _ text => some text
  | node _ _ _ => none

def children : Xml → List Xml
  | leaf _ _ _ => []
  | node _ _ children => children

def named (n : String) (xs : List Xml) : Option Xml := xs.find? fun x => x.name = n

def down : List String → Xml → Option Xml
  | [], x => some x
  | n :: path, x => (named n x.children).bind (down path)

inductive Within : Xml → Xml → Prop
  | here (x : Xml) : Within x x
  | deeper {x y z : Xml} (hy : y ∈ z.children) (hx : Within x y) : Within x z

theorem WellFormed.within {x y : Xml} (hy : y.WellFormed) (h : Within x y) : x.WellFormed := by
  induction h with
  | here => exact hy
  | deeper hmem _ ih =>
    cases hy with
    | leaf => cases hmem
    | node tag nonempty inner => exact ih (inner _ hmem)

@[simp] theorem name_leaf (n : String) (attrs : List (String × String)) (t : String) :
    (leaf n attrs t).name = n := rfl

@[simp] theorem name_node (n : String) (attrs : List (String × String)) (xs : List Xml) :
    (node n attrs xs).name = n := rfl

@[simp] theorem text_leaf (n : String) (attrs : List (String × String)) (t : String) :
    (leaf n attrs t).text = some t := rfl

@[simp] theorem attr_leaf (n key : String) (attrs : List (String × String)) (t : String) :
    (leaf n attrs t).attr key = attrs.lookup key := rfl

@[simp] theorem children_node (n : String) (attrs : List (String × String)) (xs : List Xml) :
    (node n attrs xs).children = xs := rfl

@[simp] theorem named_nil (n : String) : named n [] = none := rfl

@[simp] theorem named_cons (n : String) (x : Xml) (xs : List Xml) :
    named n (x :: xs) = if x.name = n then some x else named n xs := by
  rw [named, List.find?_cons]
  by_cases h : x.name = n
  · rw [if_pos h, decide_eq_true h]
  · rw [if_neg h, decide_eq_false h]
    rfl

@[simp] theorem named_append (n : String) (xs ys : List Xml) :
    named n (xs ++ ys) = (named n xs).or (named n ys) := List.find?_append

@[simp] theorem named_map {α : Type*} (f : α → Xml) (n : String) (l : List α) :
    named n (l.map f) = (l.find? fun a => (f a).name = n).map f := List.find?_map

@[simp] theorem find?_all {α : Type*} (l : List α) : l.find? (fun _ => true) = l.head? := by
  cases l <;> rfl

@[simp] theorem find?_none {α : Type*} (l : List α) : l.find? (fun _ => false) = none :=
  List.find?_eq_none.mpr fun _ _ => Bool.false_ne_true

@[simp] theorem down_nil : down [] = some := rfl

@[simp] theorem down_cons (n : String) (path : List String) (x : Xml) :
    down (n :: path) x = (named n x.children).bind (down path) := rfl

end Xml
end InvoiceOs.Lib
