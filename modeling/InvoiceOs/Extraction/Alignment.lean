import InvoiceOs.Extraction.Lines
import InvoiceOs.Lib.Matching
import InvoiceOs.Lib.Weave
import Mathlib.Data.List.Sort
import Mathlib.Data.List.Infix

/-! Which line of the answer is which line of the engine: the strong anchors first, the amounts in
the gaps they leave, and the rest by position. -/

namespace InvoiceOs.Extraction

open Lib

/-! ### The alignment -/

def aliMax3 (a b c : ℕ) : ℕ := max (max a b) c

section
variable (compatible : ℕ → ℕ → Bool)

/-- `best[i]`, filled backwards from `best[i+1]`. -/
def bestRow (a : ℕ) : List ℕ → List ℕ → List ℕ
  | [], _ => [0]
  | k :: key, below =>
    let row := bestRow a key below.tail
    let take := if compatible a k then 1 + below.getD 1 0 else 0
    aliMax3 (below.getD 0 0) (row.getD 0 0) take :: row

def bestTable (key : List ℕ) : List ℕ → List (List ℕ)
  | [] => [List.replicate (key.length + 1) 0]
  | a :: answer =>
    let below := bestTable key answer
    bestRow compatible a key (below.getD 0 []) :: below

/-- The traceback: at each place the pair where it is compatible and optimal, else past the side
whose drop costs nothing. -/
def aliTrace (answer key : List ℕ) (best : ℕ → ℕ → ℕ) (i j : ℕ) : List (ℕ × ℕ) :=
  if h : i < answer.length ∧ j < key.length then
    if compatible answer[i] key[j] ∧ best i j = 1 + best (i + 1) (j + 1) then
      (i, j) :: aliTrace answer key best (i + 1) (j + 1)
    else if best i (j + 1) ≤ best (i + 1) j then aliTrace answer key best (i + 1) j
    else aliTrace answer key best i (j + 1)
  else []
termination_by (answer.length - i) + (key.length - j)

def aliMonotoneMatch (answer key : List ℕ) : List (ℕ × ℕ) :=
  let best := bestTable compatible key answer
  aliTrace compatible answer key (fun i j => (best.getD i []).getD j 0) 0 0

end

inductive AliPass where
  | strong
  | amount
  | positional
  deriving DecidableEq, Repr

inductive AliOutcome where
  | found
  | misaligned
  deriving DecidableEq, Repr

/-- One row match, 1-based; no outcome before the passes are over. -/
structure AliPair where
  answer : ℕ
  key : ℕ
  pass : AliPass
  outcome : Option AliOutcome := none
  deriving DecidableEq, Repr

structure AliAlignment where
  pairs : List AliPair
  invented : List ℕ
  dropped : List ℕ
  deriving DecidableEq, Repr

def aliSeq (lo hi : ℕ) : List ℕ := List.range' lo (hi + 1 - lo)

def aliGapsFrom (nAnswer nKey prevA prevK : ℕ) : List AliPair → List (List ℕ × List ℕ)
  | [] => [(aliSeq (prevA + 1) nAnswer, aliSeq (prevK + 1) nKey)]
  | p :: pairs =>
    (aliSeq (prevA + 1) (p.answer - 1), aliSeq (prevK + 1) (p.key - 1)) ::
      aliGapsFrom nAnswer nKey p.answer p.key pairs

def aliGaps (pairs : List AliPair) (nAnswer nKey : ℕ) : List (List ℕ × List ℕ) :=
  aliGapsFrom nAnswer nKey 0 0 pairs

/-- A test of `answer[a-1]` and `key[k-1]`; the positions are never outside. -/
def atRows (compatible : DocLine → DocLine → Bool) (answer key : List DocLine) (a k : ℕ) : Bool :=
  match answer[a - 1]?, key[k - 1]? with
  | some a, some k => compatible a k
  | _, _ => false

def aliMatchRange (answer key : List DocLine) (gap : List ℕ × List ℕ) (pass : AliPass)
    (compatible : DocLine → DocLine → Bool) : List AliPair :=
  if gap.1 = [] ∨ gap.2 = [] then []
  else
    (aliMonotoneMatch (atRows compatible answer key) gap.1 gap.2).map fun lp =>
      { answer := gap.1.getD lp.1 0, key := gap.2.getD lp.2 0, pass }

/-- `sort.Slice` by answer; no two pairs share one. -/
def aliSortPairs (pairs : List AliPair) : List AliPair :=
  pairs.mergeSort fun p q => p.answer ≤ q.answer

def positionalFill (gap : List ℕ × List ℕ) : List AliPair :=
  gap.1.zipWith (fun a k => { answer := a, key := k, pass := .positional }) gap.2

def aliLeftover (pairs : List AliPair) (n : ℕ) (pos : AliPair → ℕ) : List ℕ :=
  (aliSeq 1 n).filter fun i => !(pairs.any fun p => pos p = i)

variable (toLower : Char → Char)

def strongPass (answer key : List DocLine) : List AliPair :=
  aliMatchRange answer key (aliSeq 1 answer.length, aliSeq 1 key.length) .strong
    (aliStrongAnchor toLower)

def amountPass (answer key : List DocLine) (pairs : List AliPair) : List AliPair :=
  aliSortPairs (pairs ++ (aliGaps pairs answer.length key.length).flatMap fun gap =>
    aliMatchRange answer key gap .amount (aliAmountAnchor toLower))

def positionalPass (answer key : List DocLine) (pairs : List AliPair) : List AliPair :=
  aliSortPairs (pairs ++ (aliGaps pairs answer.length key.length).flatMap positionalFill)

def withOutcome (answer key : List DocLine) (p : AliPair) : AliPair :=
  { p with outcome :=
      if p.pass = .positional ∧
          ¬ atRows (aliCellsAgree toLower "description") answer key p.answer p.key
        then some .misaligned else some .found }

def aliAlign (answer key : List DocLine) : AliAlignment :=
  let pairs := strongPass toLower answer key
  let pairs := amountPass toLower answer key pairs
  let pairs := positionalPass answer key pairs
  let pairs := pairs.map (withOutcome toLower answer key)
  { pairs
    invented := aliLeftover pairs answer.length AliPair.answer
    dropped := aliLeftover pairs key.length AliPair.key }

end InvoiceOs.Extraction
