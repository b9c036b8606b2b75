import Mathlib.Data.List.Basic

/-! Comma-separated values: a writer that quotes what needs it, and a reader of any quoted text,
which reads back exactly the records that were written. -/

namespace InvoiceOs.Lib.Csv

abbrev Field := List Char

abbrev Record := List Field

/-! ### The writer -/

def quote : Char := '\x22'

def isSpecial (c : Char) : Bool := c = ',' || c = quote || c = '\r' || c = '\n'

section
variable (isSpace : Char → Bool)

def fieldNeedsQuotes : Field → Bool
  | [] => false
  | c :: f => (c = '\x5c' && f = ['.']) || (c :: f).any isSpecial || isSpace c

def quoted (f : Field) : List Char := f.flatMap fun c => if c = quote then [quote, quote] else [c]

def writeField (f : Field) : List Char :=
  if fieldNeedsQuotes isSpace f then quote :: quoted f ++ [quote] else f

def writeFields : Record → List Char
  | [] => []
  | [f] => writeField isSpace f
  | f :: fs => writeField isSpace f ++ ',' :: writeFields fs

def write (r : Record) : List Char := writeFields isSpace r ++ ['\n']

def writeAll (rs : List Record) : List Char := rs.flatMap (write isSpace)

end

/-! ### The reader -/

inductive Mode where
  | start
  | plain
  | inside
  | closing
  deriving DecidableEq

structure Reader where
  records : List Record := []
  fields : Record := []
  field : Field := []
  mode : Mode := .start
  deriving DecidableEq

namespace Reader

def add (s : Reader) (c : Char) (mode : Mode) : Reader :=
  { s with field := s.field ++ [c], mode := mode }

def endField (s : Reader) : Reader :=
  { s with fields := s.fields ++ [s.field], field := [], mode := .start }

def endRecord (s : Reader) : Reader :=
  { records := s.records ++ [s.fields ++ [s.field]] }

def separate (s : Reader) (c : Char) (rest : Option Reader) : Option Reader :=
  if c = ',' then some s.endField else if c = '\n' then some s.endRecord else rest

def step (s : Reader) (c : Char) : Option Reader :=
  match s.mode with
  | .start => if c = quote then some { s with mode := .inside } else s.separate c (s.add c .plain)
  | .plain => s.separate c (s.add c .plain)
  | .inside => if c = quote then some { s with mode := .closing } else some (s.add c .inside)
  | .closing => if c = quote then some (s.add c .inside) else s.separate c none

def run (s : Reader) : List Char → Option Reader
  | [] => some s
  | c :: cs => (s.step c).bind fun s' => s'.run cs

end Reader

def read (cs : List Char) : Option (List Record) :=
  (Reader.run {} cs).bind fun s => if s = { records := s.records } then some s.records else none

/-! ### Reading back -/

namespace Reader

theorem run_append (s : Reader) (cs cs' : List Char) :
    s.run (cs ++ cs') = (s.run cs).bind fun s' => s'.run cs' := by
  induction cs generalizing s with
  | nil => rfl
  | cons c cs ih =>
    rw [List.cons_append, run, run, Option.bind_assoc]
    exact congrArg _ (funext ih)

variable {s : Reader}

theorem isSpecial_false {c : Char} (h : isSpecial c = false) : c ≠ ',' ∧ c ≠ quote ∧ c ≠ '\n' := by
  unfold isSpecial at h
  simp only [Bool.or_eq_false_iff, decide_eq_false_iff_not] at h
  exact ⟨h.1.1.1, h.1.1.2, h.2⟩

theorem run_plain (hs : s.mode = .plain) {f : Field} (h : ∀ c ∈ f, isSpecial c = false) :
    s.run f = some { s with field := s.field ++ f } := by
  induction f generalizing s with
  | nil => rw [run, List.append_nil]
  | cons c f ih =>
    obtain ⟨hcomma, -, hnewline⟩ := isSpecial_false (h c List.mem_cons_self)
    have hstep : s.step c = some (s.add c .plain) := by
      unfold step separate
      rw [hs]
      simp only [if_neg hcomma, if_neg hnewline]
    have hrest := ih (s := s.add c .plain) rfl fun d hd => h d (List.mem_cons_of_mem _ hd)
    rw [run, hstep, Option.bind_some, hrest]
    simp [add, hs]

theorem run_quoted (hs : s.mode = .inside) (f : Field) :
    s.run (quoted f) = some { s with field := s.field ++ f } := by
  induction f generalizing s with
  | nil => simp [quoted, run]
  | cons c f ih =>
    have hrest := ih (s := s.add c .inside) rfl
    have hhead : s.run (if c = quote then [quote, quote] else [c]) = some (s.add c .inside) := by
      split
      · rename_i hc
        simp only [run, step, hs, if_true, Option.bind_some, hc]
        rfl
      · rename_i hc
        simp only [run, step, hs, if_neg hc, Option.bind_some]
    have hcons : quoted (c :: f) = (if c = quote then [quote, quote] else [c]) ++ quoted f := rfl
    rw [hcons, run_append, hhead, Option.bind_some, hrest]
    simp [add, hs]

theorem run_writeField (isSpace : Char → Bool) (hs : s.mode = .start) (hfield : s.field = [])
    (f : Field) {c : Char} (hc : c = ',' ∨ c = '\n') :
    s.run (writeField isSpace f ++ [c]) =
      some (if c = ',' then { s with field := f }.endField else { s with field := f }.endRecord) := by
  have hquote : c ≠ quote := by
    rcases hc with rfl | rfl <;> decide
  have hend : ∀ t : Reader, t.separate c none =
      some (if c = ',' then t.endField else t.endRecord) := by
    intro t
    unfold separate
    rcases hc with rfl | rfl
    · rfl
    · rfl
  have hend' : ∀ (t : Reader) (rest : Option Reader), t.separate c rest = t.separate c none := by
    intro t rest
    unfold separate
    rcases hc with rfl | rfl
    · rfl
    · rfl
  unfold writeField
  split
  · -- the quotes open and close around the text
    have hopen : s.run [quote] = some { s with mode := .inside } := by
      simp only [run, step, hs, if_true, Option.bind_some]
    have htext := run_quoted (s := { s with mode := .inside }) rfl f
    have hclose : ({ s with mode := .inside, field := s.field ++ f } : Reader).run [quote, c] =
        some (if c = ',' then { s with field := f }.endField else { s with field := f }.endRecord) := by
      simp only [run, step, if_true, Option.bind_some, if_neg hquote, hend, hfield, List.nil_append]
      rfl
    have hsplit : quote :: quoted f ++ [quote] ++ [c] = [quote] ++ (quoted f ++ [quote, c]) := by simp
    rw [hsplit, run_append, hopen, Option.bind_some, run_append, htext, Option.bind_some, hclose]
  · rename_i hplain
    cases f with
    | nil =>
      have hstep : s.step c = s.separate c none := by
        unfold step
        rw [hs]
        simp only [if_neg hquote, hend']
      rw [List.nil_append, run, hstep, hend, Option.bind_some, run]
      have hsame : ({ s with field := [] } : Reader) = s := by rw [← hfield]
      rw [hsame]
    | cons d f =>
      simp only [fieldNeedsQuotes, Bool.or_eq_true, not_or, List.any_eq_true, not_exists, not_and,
        Bool.not_eq_true] at hplain
      have hall : ∀ e ∈ d :: f, isSpecial e = false := hplain.1.2
      obtain ⟨hcomma, hopen, hnewline⟩ := isSpecial_false (hall d List.mem_cons_self)
      have hfirst : s.step d = some (s.add d .plain) := by
        unfold step separate
        rw [hs]
        simp only [if_neg hopen, if_neg hcomma, if_neg hnewline]
      have hrest := run_plain (s := s.add d .plain) rfl fun e he => hall e (List.mem_cons_of_mem _ he)
      have hlast : ({ s.add d .plain with field := (s.add d .plain).field ++ f } : Reader).step c =
          some (if c = ',' then { s with field := d :: f }.endField
            else { s with field := d :: f }.endRecord) := by
        simp only [step, add, hend', hend, hfield, List.nil_append, List.singleton_append]
        rfl
      rw [List.cons_append, run, hfirst, Option.bind_some, run_append, hrest, Option.bind_some, run,
        hlast, Option.bind_some, run]

theorem run_write (isSpace : Char → Bool) {r : Record} (hr : r ≠ []) (hs : s.mode = .start)
    (hfield : s.field = []) :
    s.run (write isSpace r) = some { records := s.records ++ [s.fields ++ r] } := by
  unfold write
  induction r generalizing s with
  | nil => exact absurd rfl hr
  | cons f r ih =>
    cases r with
    | nil => exact run_writeField isSpace hs hfield f (Or.inr rfl)
    | cons g r =>
      have hhead := run_writeField isSpace hs hfield f (c := ',') (Or.inl rfl)
      have hrest := ih (s := { s with field := f }.endField) (List.cons_ne_nil _ _) rfl rfl
      have hsplit : writeFields isSpace (f :: g :: r) ++ ['\n'] =
          (writeField isSpace f ++ [',']) ++ (writeFields isSpace (g :: r) ++ ['\n']) := by
        simp [writeFields]
      rw [hsplit, run_append, hhead, Option.bind_some, if_pos rfl, hrest]
      simp [endField]

theorem run_writeAll (isSpace : Char → Bool) {rs : List Record} (h : ∀ r ∈ rs, r ≠ [])
    (before : List Record) :
    run { records := before } (writeAll isSpace rs) = some { records := before ++ rs } := by
  induction rs generalizing before with
  | nil => simp [writeAll, run]
  | cons r rs ih =>
    have hhead := run_write (s := { records := before }) isSpace (h r List.mem_cons_self) rfl rfl
    have hrest := ih (fun r' hr' => h r' (List.mem_cons_of_mem _ hr')) (before ++ [r])
    have hcons : writeAll isSpace (r :: rs) = write isSpace r ++ writeAll isSpace rs := rfl
    rw [hcons, run_append, hhead, Option.bind_some, List.nil_append, hrest, List.append_assoc,
      List.singleton_append]

end Reader

theorem read_writeAll (isSpace : Char → Bool) {rs : List Record} (h : ∀ r ∈ rs, r ≠ []) :
    read (writeAll isSpace rs) = some rs := by
  have hrun := Reader.run_writeAll isSpace h []
  unfold read
  rw [List.nil_append] at hrun
  rw [hrun, Option.bind_some, if_pos rfl]

end InvoiceOs.Lib.Csv
