import InvoiceOs.Extraction.Projections
import InvoiceOs.Extraction.Reconcile

/-! The page check of an AI's header answer: a value counts where some run of words of one token
reads as it does, and the words in front of it do not speak against it. -/

namespace InvoiceOs.Extraction

/-- What the check takes from Go beyond the engine's: every match of a pattern, in order, and the
two classes of letters and digits. -/
structure AIRuntime extends Runtime where
  findAllStringIndex : String → String → List (ℕ × ℕ)
  isDigit : Char → Bool

def paymentLabelRE : String := "(?i)\\b(account\\s*name|account\\s*no|account\\s*number|bank)\\b"

structure AIReading where
  value : String
  region : Option Region
  deriving DecidableEq

structure AIOccurrence where
  front : String
  region : Option Region
  deriving DecidableEq

def tier1Shape (field : String) : Option Shape :=
  (tier1Specs.find? fun s => s.2.1 = field).map fun s => s.2.2

def allASCIIDigits (s : String) : Bool := s ≠ "" && s.toList.all Char.isDigit

def aiRuns (words : List String) : List (String × String) :=
  (List.range words.length).flatMap fun wi =>
    (List.range' (wi + 1) (words.length - wi)).map fun wj =>
      (" ".intercalate ((words.take wj).drop wi), " ".intercalate (words.take wj))

section
variable (R : AIRuntime)

def anchorMatcherRE (id : String) : Regexp := R.mustCompile (anchorPattern id)

def readsAs (shape : Shape) (raw value : String) : Bool :=
  (shape.normalize R.toRuntime raw).contains value

def aiRunForms (run : String) : List String :=
  run :: (anchorLabelMatchers R.toRuntime).filterMap fun m => (m.2 run).map (sameTokenValue run)

def aiFormHits (shape : Shape) (form raw : String) (want : List String) : Bool :=
  collapse form = collapse raw || want.any (readsAs R shape form)

/-- What stands in front of a form that ends where its run does; at the line's start, the token
before. -/
def aiFront (before : Option Token) (upto form : String) : String :=
  let front := trimSpace (String.ofList (upto.toList.take (upto.length - form.length)))
  match before with
  | some tok => if front = "" then tok.text else front
  | none => front

def tokenOccurrences (shape : Shape) (raw : String) (want : List String) (before : Option Token)
    (tok : Token) : List AIOccurrence :=
  (aiRuns (fields tok.text)).flatMap fun (run, upto) =>
    ((aiRunForms R run).filter fun form => aiFormHits R shape form raw want).map fun form => {
      front := labelView R.toRuntime (aiFront before upto form)
      region := usableRegion tok.region }

def aiOccurrences (shape : Shape) (raw : String) (want : List String) (pages : List TokenPage) :
    List AIOccurrence :=
  pages.flatMap fun p => ((none :: p.tokens.map some).zip p.tokens).flatMap fun (before, tok) =>
    tokenOccurrences R shape raw want before tok

/-- The last match has only punctuation behind it. -/
def endsWithLabel (id front : String) : Bool :=
  match (R.findAllStringIndex (anchorPattern id) front).getLast? with
  | none => false
  | some loc => (front.toList.drop loc.2).all fun r => !R.isLetter r && !R.isDigit r

/-- The value to look for, and whether it needs an invoice number's label in front. -/
def aiWanted (field raw : String) (want : List String) : Option (String × Bool) :=
  match want with
  | [value] => some (value, false)
  | [] =>
    let t := trimSpace raw
    if field = "invoice_number" && allASCIIDigits t && reInvNum t.toList then some (t, true)
    else none
  | _ => none

def aiAccepted (field : String) (needD : Bool) (occurrences : List AIOccurrence) :
    Option AIOccurrence :=
  if (field = "supplier_name" || field = "buyer_name") &&
      occurrences.any fun occ => (R.mustCompile paymentLabelRE occ.front).isSome then none
  else if needD then
    occurrences.find? fun occ => (anchorMatcherRE R "invoice_no" occ.front).isSome
  else if field = "due_date" then
    occurrences.find? fun occ => endsWithLabel R "due_date" occ.front
  else occurrences.head?

def checkAI (field raw : String) (pages : List TokenPage) : Option AIReading := do
  let shape ← tier1Shape field
  let want := shape.normalize R.toRuntime raw
  let (value, needD) ← aiWanted field raw want
  let occ ← aiAccepted R field needD (aiOccurrences R shape raw want pages)
  some { value, region := occ.region }

/-! ### What a reading stands on -/

def OnPage (pages : List TokenPage) (form : String) (region : Option Region) : Prop :=
  ∃ p ∈ pages, ∃ t ∈ p.tokens, region = usableRegion t.region ∧
    ∃ run ∈ wordRuns (fields t.text), form ∈ aiRunForms R run

def Printed (pages : List TokenPage) (field value : String) (region : Option Region) : Prop :=
  ∃ shape, tier1Shape field = some shape ∧ ∃ form, OnPage R pages form region ∧
    ∃ text, collapse text = collapse form ∧
      (value ∈ shape.normalize R.toRuntime text ∨
        field = "invoice_number" ∧ value = trimSpace text ∧ allASCIIDigits value = true)

end

theorem aiRuns_run {words : List String} {r : String × String} (h : r ∈ aiRuns words) :
    r.1 ∈ wordRuns words := by
  obtain ⟨wi, hwi, hr⟩ := List.mem_flatMap.mp h
  obtain ⟨wj, hwj, rfl⟩ := List.mem_map.mp hr
  have hstart := List.mem_range.mp hwi
  obtain ⟨hafter, hend⟩ := List.mem_range'_1.mp hwj
  refine List.mem_flatMap.mpr ⟨words.drop wi, (List.mem_tails _ _).mpr (List.drop_suffix wi words), ?_⟩
  have hlength : wj - wi - 1 < (words.drop wi).length := by
    rw [List.length_drop]
    omega
  refine List.mem_map.mpr ⟨wj - wi - 1, List.mem_range.mpr hlength, ?_⟩
  rw [List.drop_take, show wj - wi - 1 + 1 = wj - wi by omega]

variable {R : AIRuntime}

theorem mem_aiOccurrences {shape : Shape} {raw : String} {want : List String}
    {pages : List TokenPage} {occ : AIOccurrence}
    (h : occ ∈ aiOccurrences R shape raw want pages) :
    ∃ form, OnPage R pages form occ.region ∧ aiFormHits R shape form raw want = true := by
  obtain ⟨p, hp, h⟩ := List.mem_flatMap.mp h
  obtain ⟨⟨before, tok⟩, htok, h⟩ := List.mem_flatMap.mp h
  obtain ⟨⟨run, upto⟩, hrun, h⟩ := List.mem_flatMap.mp h
  obtain ⟨form, hform, rfl⟩ := List.mem_map.mp h
  obtain ⟨hform, hhits⟩ := List.mem_filter.mp hform
  exact ⟨form, ⟨p, hp, tok, (List.of_mem_zip htok).2, rfl, run, aiRuns_run hrun, hform⟩, hhits⟩

theorem aiAccepted_mem {field : String} {needD : Bool} {occurrences : List AIOccurrence}
    {occ : AIOccurrence} (h : aiAccepted R field needD occurrences = some occ) :
    occ ∈ occurrences := by
  unfold aiAccepted at h
  split at h
  · cases h
  split at h
  · exact List.mem_of_find?_eq_some h
  split at h
  · exact List.mem_of_find?_eq_some h
  · exact List.mem_of_head? h

theorem aiWanted_cases {field raw : String} {want : List String} {value : String} {needD : Bool}
    (h : aiWanted field raw want = some (value, needD)) :
    want = [value] ∨ want = [] ∧ field = "invoice_number" ∧ value = trimSpace raw ∧
      allASCIIDigits value = true := by
  unfold aiWanted at h
  split at h
  · cases h
    exact .inl rfl
  · dsimp only at h
    split at h
    · rename_i hdigits
      obtain ⟨⟨hfield, hall⟩, -⟩ := Bool.and_eq_true_iff.mp hdigits |>.imp_left
        Bool.and_eq_true_iff.mp
      cases h
      exact .inr ⟨rfl, of_decide_eq_true hfield, rfl, hall⟩
    · cases h
  · cases h

theorem printed_of_checkAI {field raw : String} {pages : List TokenPage} {got : AIReading}
    (h : checkAI R field raw pages = some got) : Printed R pages field got.value got.region := by
  simp only [checkAI, Option.bind_eq_bind, Option.bind_eq_some_iff, Option.some.injEq] at h
  obtain ⟨shape, hshape, ⟨value, needD⟩, hwanted, occ, haccepted, rfl⟩ := h
  obtain ⟨form, hform, hhits⟩ := mem_aiOccurrences (aiAccepted_mem haccepted)
  refine ⟨shape, hshape, form, hform, ?_⟩
  rcases aiWanted_cases hwanted with hone | ⟨hnone, hfield, rfl, hdigits⟩
  · rw [aiFormHits, hone, Bool.or_eq_true, List.any_cons, List.any_nil, Bool.or_false] at hhits
    rcases hhits with hsame | hreads
    · have hvalue : value ∈ shape.normalize R.toRuntime raw := by
        rw [hone]
        exact List.mem_singleton_self value
      exact ⟨raw, (of_decide_eq_true hsame).symm, .inl hvalue⟩
    · exact ⟨form, rfl, .inl (List.contains_iff_mem.mp hreads)⟩
  · rw [aiFormHits, hnone, List.any_nil, Bool.or_false] at hhits
    exact ⟨raw, (of_decide_eq_true hhits).symm, .inr ⟨hfield, rfl, hdigits⟩⟩

end InvoiceOs.Extraction
