import InvoiceOs.Lib.Framing
import Mathlib.Algebra.Ring.Int.Defs
import Mathlib.Data.List.DropRight

/-! Timestamps as RFC 3339 writes them, with as many fractional digits as the instant needs: the
text of a timestamp and the reader of such texts. -/

namespace InvoiceOs.Lib

/-- An instant as a clock in some zone shows it; the zone's offset is in seconds east. -/
structure Timestamp where
  year : ℤ
  month : ℕ
  day : ℕ
  hour : ℕ
  minute : ℕ
  second : ℕ
  nano : ℕ
  offset : ℤ
  deriving DecidableEq

namespace Timestamp

/-! ### The instant -/

def isLeap (y : ℤ) : Bool := y % 4 = 0 && (y % 100 ≠ 0 || y % 400 = 0)

def daysIn (y : ℤ) (m : ℕ) : ℕ :=
  if m = 2 then (if isLeap y then 29 else 28)
  else if m = 4 ∨ m = 6 ∨ m = 9 ∨ m = 11 then 30 else 31

def days (y : ℤ) (m d : ℕ) : ℤ :=
  365 * y + (y + 3) / 4 - (y + 99) / 100 + (y + 399) / 400 +
    ((List.range (m - 1)).map fun k => (daysIn y (k + 1) : ℤ)).sum + (d - 1)

/-- Nanoseconds since the year 0 began in UTC. -/
def instant (t : Timestamp) : ℤ :=
  (days t.year t.month t.day * 86400 + t.hour * 3600 + t.minute * 60 + t.second - t.offset) *
    10 ^ 9 + t.nano

structure Valid (t : Timestamp) : Prop where
  month : 1 ≤ t.month ∧ t.month ≤ 12
  day : 1 ≤ t.day ∧ t.day ≤ daysIn t.year t.month
  hour : t.hour < 24
  minute : t.minute < 60
  second : t.second < 60
  nano : t.nano < 10 ^ 9

instance (t : Timestamp) : Decidable t.Valid :=
  decidable_of_iff ((1 ≤ t.month ∧ t.month ≤ 12) ∧ (1 ≤ t.day ∧ t.day ≤ daysIn t.year t.month) ∧
    t.hour < 24 ∧ t.minute < 60 ∧ t.second < 60 ∧ t.nano < 10 ^ 9)
    ⟨fun ⟨a, b, c, d, e, f⟩ => ⟨a, b, c, d, e, f⟩, fun ⟨a, b, c, d, e, f⟩ => ⟨a, b, c, d, e, f⟩⟩

/-! ### Writing -/

def padded (w n : ℕ) : List Char := List.replicate (w - (digits n).length) '0' ++ digits n

def yearText (y : ℤ) : List Char := (if y < 0 then ['-'] else []) ++ padded 4 y.natAbs

def fraction (n : ℕ) : List Char :=
  if n = 0 then [] else '.' :: (padded 9 n).rdropWhile (· = '0')

/-- The zone in minutes; the seconds of an offset are dropped. -/
def zone (offset : ℤ) : List Char :=
  if offset = 0 then ['Z']
  else
    let minutes := offset.tdiv 60
    (if minutes < 0 then '-' else '+') :: (padded 2 (minutes.natAbs / 60) ++
      ':' :: padded 2 (minutes.natAbs % 60))

def format (t : Timestamp) : List Char :=
  yearText t.year ++ '-' :: (padded 2 t.month ++ '-' :: (padded 2 t.day ++ 'T' ::
    (padded 2 t.hour ++ ':' :: (padded 2 t.minute ++ ':' :: (padded 2 t.second ++
      (fraction t.nano ++ zone t.offset))))))

/-! ### Reading -/

def value (ds : List Char) : ℕ := Nat.ofDigitChars 10 ds 0

def readYear : List Char → Option (ℕ × List Char)
  | a :: b :: c :: d :: s => if [a, b, c, d].all Char.isDigit then some (value [a, b, c, d], s) else none
  | _ => none

def readTwo (fixed : Bool) : List Char → Option (ℕ × List Char)
  | [] => none
  | a :: s =>
    if a.isDigit then
      match s with
      | b :: s' =>
        if b.isDigit then some (value [a, b], s')
        else if fixed then none else some (value [a], s)
      | [] => if fixed then none else some (value [a], [])
    else none

def skip (c : Char) : List Char → Option (List Char)
  | [] => none
  | d :: s => if d = c then some s else none

/-- Any number of digits behind a point or a comma; nine of them count. -/
def readFraction : List Char → ℕ × List Char
  | p :: d :: s =>
    if (p = '.' || p = ',') && d.isDigit then
      let ds := ((d :: s).takeWhile Char.isDigit).take 9
      (value ds * 10 ^ (9 - ds.length), (d :: s).dropWhile Char.isDigit)
    else (0, p :: d :: s)
  | s => (0, s)

def readZone : List Char → Option (ℤ × List Char)
  | 'Z' :: s => some (0, s)
  | sign :: h₁ :: h₂ :: ':' :: m₁ :: m₂ :: s =>
    if [h₁, h₂, m₁, m₂].all Char.isDigit ∧ value [h₁, h₂] ≤ 24 ∧ value [m₁, m₂] ≤ 60 then
      let seconds : ℤ := (value [h₁, h₂] * 60 + value [m₁, m₂] : ℕ) * 60
      if sign = '+' then some (seconds, s) else if sign = '-' then some (-seconds, s) else none
    else none
  | _ => none

def parse (s : List Char) : Option Timestamp := do
  let (year, s) ← readYear s
  let s ← skip '-' s
  let (month, s) ← readTwo true s
  if month < 1 ∨ 12 < month then none else
  let s ← skip '-' s
  let (day, s) ← readTwo true s
  let s ← skip 'T' s
  let (hour, s) ← readTwo false s
  if 24 ≤ hour then none else
  let s ← skip ':' s
  let (minute, s) ← readTwo true s
  if 60 ≤ minute then none else
  let s ← skip ':' s
  let (second, s) ← readTwo true s
  if 60 ≤ second then none else
  let (nano, s) := readFraction s
  let (offset, s) ← readZone s
  if s ≠ [] then none else
  if day < 1 ∨ daysIn year month < day then none else
  return {
    year := year
    month := month
    day := day
    hour := hour
    minute := minute
    second := second
    nano := nano
    offset := offset }

/-! ### Digits -/

theorem value_padded (w n : ℕ) : value (padded w n) = n := by
  rw [value, padded, Nat.ofDigitChars_append, Nat.ofDigitChars_replicate_zero, Nat.mul_zero,
    digits_eq]
  exact Nat.ofDigitChars_ten_toDigits

theorem isDigit_of_mem_padded {w n : ℕ} {c : Char} (h : c ∈ padded w n) : c.isDigit = true := by
  obtain hc | hc := List.mem_append.mp h
  · rw [List.eq_of_mem_replicate hc]
    rfl
  · exact isDigit_of_mem_digits hc

theorem length_padded {w n : ℕ} (h : n < 10 ^ w) (hw : 0 < w) : (padded w n).length = w := by
  have hlen : (digits n).length ≤ w := by
    rw [digits_eq]
    exact (Nat.length_toDigits_le_iff (by decide) hw).mpr h
  rw [padded, List.length_append, List.length_replicate]
  omega

theorem padded_two {n : ℕ} (h : n < 100) :
    ∃ a b, padded 2 n = [a, b] ∧ a.isDigit = true ∧ b.isDigit = true ∧ value [a, b] = n := by
  obtain ⟨a, b, hab⟩ := List.length_eq_two.mp (length_padded (w := 2) h (by decide))
  have ha : a ∈ padded 2 n := by rw [hab]; exact List.mem_cons_self
  have hb : b ∈ padded 2 n := by rw [hab]; simp
  exact ⟨a, b, hab, isDigit_of_mem_padded ha, isDigit_of_mem_padded hb, hab ▸ value_padded 2 n⟩

theorem padded_four {n : ℕ} (h : n < 10000) :
    ∃ a b c d, padded 4 n = [a, b, c, d] ∧ [a, b, c, d].all Char.isDigit = true ∧
      value [a, b, c, d] = n := by
  have hlen := length_padded (w := 4) h (by decide)
  match hp : padded 4 n, hlen with
  | [a, b, c, d], _ =>
    refine ⟨a, b, c, d, rfl, List.all_eq_true.mpr fun x hx => ?_, hp ▸ value_padded 4 n⟩
    exact isDigit_of_mem_padded (hp ▸ hx)


/-! ### The reader undoes the writer -/

section readers
variable {s : List Char}

theorem readYear_padded {n : ℕ} (h : n < 10000) : readYear (padded 4 n ++ s) = some (n, s) := by
  obtain ⟨a, b, c, d, hpadded, hdigits, hvalue⟩ := padded_four h
  rw [hpadded]
  simp only [List.cons_append, List.nil_append, readYear]
  rw [if_pos hdigits, hvalue]

theorem readTwo_padded {n : ℕ} (fixed : Bool) (h : n < 100) :
    readTwo fixed (padded 2 n ++ s) = some (n, s) := by
  obtain ⟨a, b, hpadded, ha, hb, hvalue⟩ := padded_two h
  rw [hpadded]
  simp only [List.cons_append, List.nil_append, readTwo]
  rw [if_pos ha, if_pos hb, hvalue]

theorem skip_cons (c : Char) : skip c (c :: s) = some s := by
  rw [skip, if_pos rfl]

end readers

theorem trimmed_zeros (n : ℕ) : ∃ k, padded 9 n =
    (padded 9 n).rdropWhile (· = '0') ++ List.replicate k '0' := by
  have hsplit := List.rdropWhile_append_rtakeWhile (p := fun c : Char => c = '0') (l := padded 9 n)
  have hzeros : (padded 9 n).rtakeWhile (· = '0') =
      List.replicate ((padded 9 n).rtakeWhile (· = '0')).length '0' := by
    refine List.eq_replicate_iff.mpr ⟨rfl, fun c hc => ?_⟩
    simpa using List.mem_rtakeWhile_imp hc
  rw [hzeros] at hsplit
  exact ⟨_, hsplit.symm⟩

theorem readFraction_fraction {n : ℕ} (h : n < 10 ^ 9) {c : Char} {s : List Char}
    (hdigit : c.isDigit = false) (hpoint : c ≠ '.') (hcomma : c ≠ ',') :
    readFraction (fraction n ++ c :: s) = (n, c :: s) := by
  by_cases hzero : n = 0
  · subst hzero
    rw [fraction, if_pos rfl, List.nil_append]
    match s with
    | [] => rfl
    | d :: s =>
      have hno : ¬((c = '.' || c = ',') && d.isDigit) = true := by simp [hpoint, hcomma]
      rw [readFraction, if_neg hno]
  · rw [fraction, if_neg hzero]
    obtain ⟨k, hk⟩ := trimmed_zeros n
    generalize hds : (padded 9 n).rdropWhile (· = '0') = ds at hk ⊢
    have hlen : ds.length + k = 9 := by
      have := congrArg List.length hk
      rw [length_padded h (by decide), List.length_append, List.length_replicate] at this
      exact this.symm
    have hvalue : value ds * 10 ^ (9 - ds.length) = n := by
      have := congrArg value hk
      rw [value_padded, value, Nat.ofDigitChars_append, Nat.ofDigitChars_replicate_zero] at this
      have hk' : k = 9 - ds.length := by omega
      rw [this, hk', value, Nat.mul_comm]
    have hdigits : ∀ d ∈ ds, d.isDigit = true := by
      intro d hd
      refine isDigit_of_mem_padded (w := 9) (n := n) ?_
      rw [hk]
      exact List.mem_append_left _ hd
    cases ds with
    | nil =>
      have hempty : value [] = 0 := rfl
      rw [hempty, Nat.zero_mul] at hvalue
      exact absurd hvalue.symm hzero
    | cons d ds =>
      have hd : d.isDigit = true := hdigits d List.mem_cons_self
      rw [List.cons_append, List.cons_append, readFraction, if_pos (by simp [hd])]
      have htake : (d :: (ds ++ c :: s)).takeWhile Char.isDigit = d :: ds := by
        rw [← List.cons_append, List.takeWhile_append_of_pos hdigits,
          List.takeWhile_cons_of_neg (by simp [hdigit]), List.append_nil]
      have hdrop : (d :: (ds ++ c :: s)).dropWhile Char.isDigit = c :: s := by
        rw [← List.cons_append, List.dropWhile_append_of_pos hdigits,
          List.dropWhile_cons_of_neg (by simp [hdigit])]
      have hall : (d :: ds).take 9 = d :: ds := List.take_of_length_le (by omega)
      rw [htake, hdrop, hall]
      dsimp only
      rw [hvalue]

/-- The zones whose text says all: whole minutes, and no more hours than the reader takes. -/
def WholeMinutes (offset : ℤ) : Prop := offset % 60 = 0 ∧ offset.natAbs / 3600 ≤ 24

instance (offset : ℤ) : Decidable (WholeMinutes offset) :=
  inferInstanceAs (Decidable (offset % 60 = 0 ∧ offset.natAbs / 3600 ≤ 24))

theorem zone_cons (offset : ℤ) : ∃ c s, zone offset = c :: s ∧ c.isDigit = false ∧ c ≠ '.' ∧
    c ≠ ',' := by
  rw [zone]
  split
  · exact ⟨'Z', [], rfl, rfl, by decide, by decide⟩
  · dsimp only
    split
    · exact ⟨'-', _, rfl, rfl, by decide, by decide⟩
    · exact ⟨'+', _, rfl, rfl, by decide, by decide⟩

theorem readZone_zone {offset : ℤ} (h : WholeMinutes offset) :
    readZone (zone offset) = some (offset, []) := by
  obtain ⟨hwhole, hhours⟩ := h
  by_cases hzero : offset = 0
  · subst hzero
    rfl
  · rw [zone, if_neg hzero]
    dsimp only
    have hminutes : offset = offset.tdiv 60 * 60 :=
      (Int.tdiv_mul_cancel (Int.dvd_of_emod_eq_zero hwhole)).symm
    generalize offset.tdiv 60 = m at hminutes ⊢
    obtain ⟨h₁, h₂, hp, hd₁, hd₂, hv⟩ := padded_two (n := m.natAbs / 60) (by omega)
    obtain ⟨m₁, m₂, hq, he₁, he₂, hw⟩ := padded_two (n := m.natAbs % 60) (by omega)
    rw [hp, hq]
    have hread : [h₁, h₂, m₁, m₂].all Char.isDigit ∧ value [h₁, h₂] ≤ 24 ∧
        value [m₁, m₂] ≤ 60 := by
      refine ⟨by simp [hd₁, hd₂, he₁, he₂], ?_, ?_⟩
      · omega
      · omega
    have hsum : value [h₁, h₂] * 60 + value [m₁, m₂] = m.natAbs := by omega
    simp only [List.cons_append, List.nil_append]
    split
    · rw [readZone, if_pos hread]
      · dsimp only
        rw [if_neg (by decide), if_pos rfl, hsum]
        congr 2
        omega
      · exact fun hc => absurd hc (by decide)
    · rw [readZone, if_pos hread]
      · dsimp only
        rw [if_pos rfl, hsum]
        congr 2
        omega
      · exact fun hc => absurd hc (by decide)

theorem readZone_emod {l s : List Char} {o : ℤ} (h : readZone l = some (o, s)) : o % 60 = 0 := by
  unfold readZone at h
  split at h
  · cases h
    rfl
  · split at h
    · dsimp only at h
      split at h
      · cases h
        omega
      · split at h
        · cases h
          omega
        · cases h
    · cases h
  · cases h

theorem length_padded_of_le {w n : ℕ} (h : 10 ^ w ≤ n) (hw : 0 < w) : w < (padded w n).length := by
  have hlen : ¬ (digits n).length ≤ w := by
    rw [digits_eq, Nat.length_toDigits_le_iff (by decide) hw]
    omega
  rw [padded, List.length_append, List.length_replicate]
  omega

theorem readZone_zone_hours {offset o : ℤ} {s : List Char}
    (h : readZone (zone offset) = some (o, s)) : offset.natAbs / 3600 ≤ 24 := by
  by_contra hmany
  have hhours : 24 < (offset.tdiv 60).natAbs / 60 := by
    have hminutes : (offset.tdiv 60).natAbs = offset.natAbs / 60 := Int.natAbs_tdiv offset 60
    omega
  rw [zone, if_neg (by rintro rfl; exact hmany (by decide))] at h
  dsimp only at h
  generalize (offset.tdiv 60).natAbs / 60 = hours at h hhours
  generalize padded 2 ((offset.tdiv 60).natAbs % 60) = minutes at h
  obtain ⟨sign, hsign, hZ⟩ : ∃ sign : Char,
      (if offset.tdiv 60 < 0 then '-' else '+') = sign ∧ sign ≠ 'Z' := by
    split
    · exact ⟨'-', rfl, by decide⟩
    · exact ⟨'+', rfl, by decide⟩
  rw [hsign] at h
  by_cases hwide : hours < 100
  · obtain ⟨h₁, h₂, hp, -, -, hv⟩ := padded_two hwide
    rw [hp] at h
    unfold readZone at h
    split at h
    · rename_i heq
      exact hZ (List.cons.inj heq).1
    · rename_i heq
      simp only [List.cons_append, List.nil_append, List.cons.injEq] at heq
      obtain ⟨-, rfl, rfl, -⟩ := heq
      rw [if_neg (by omega)] at h
      cases h
    · cases h
  · -- three digits: the colon is not where the reader looks for it
    have hlong := length_padded_of_le (w := 2) (n := hours) (by omega) (by decide)
    have hdigit : ∀ c ∈ padded 2 hours, c.isDigit = true := fun c => isDigit_of_mem_padded
    generalize padded 2 hours = ds at h hlong hdigit
    obtain _ | ⟨a, _ | ⟨b, _ | ⟨c, rest⟩⟩⟩ := ds
    iterate 3 · simp at hlong
    have hc : c ≠ ':' := by
      rintro rfl
      exact absurd (hdigit ':' (by simp)) (by decide)
    unfold readZone at h
    split at h
    · rename_i heq
      exact hZ (List.cons.inj heq).1
    · rename_i heq
      simp only [List.cons_append, List.cons.injEq] at heq
      exact hc heq.2.2.2.1
    · cases h

theorem readZone_zone_iff {offset : ℤ} :
    readZone (zone offset) = some (offset, []) ↔ WholeMinutes offset :=
  ⟨fun h => ⟨readZone_emod h, readZone_zone_hours h⟩, readZone_zone⟩

theorem parse_format_eq {t : Timestamp} (h : t.Valid) (hyear : 0 ≤ t.year ∧ t.year ≤ 9999) :
    parse (format t) = (readZone (zone t.offset)).bind fun p =>
      if p.2 ≠ [] then none else some { t with offset := p.1 } := by
  obtain ⟨year, month, day, hour, minute, second, nano, offset⟩ := t
  obtain ⟨hmonth, hday, hhour, hminute, hsecond, hnano⟩ := h
  dsimp only at hyear hmonth hday hhour hminute hsecond hnano
  have hdays : daysIn year month ≤ 31 := by
    rw [daysIn]
    repeat' split
    all_goals decide
  have htext : yearText year = padded 4 year.natAbs := by
    rw [yearText, if_neg (by omega), List.nil_append]
  have hyear' : (year.natAbs : ℤ) = year := Int.natAbs_of_nonneg hyear.1
  obtain ⟨c, s, hz, hdigit, hpoint, hcomma⟩ := zone_cons offset
  have hfraction := readFraction_fraction hnano (s := s) hdigit hpoint hcomma
  rw [← hz] at hfraction
  rw [parse, format]
  dsimp only
  rw [htext, readYear_padded (by omega)]
  simp only [Option.bind_eq_bind, Option.bind_some, skip_cons,
    readTwo_padded true (show month < 100 by omega), readTwo_padded true (show day < 100 by omega),
    readTwo_padded false (show hour < 100 by omega),
    readTwo_padded true (show minute < 100 by omega),
    readTwo_padded true (show second < 100 by omega), hfraction, hyear']
  rw [if_neg (by omega), if_neg (by omega), if_neg (by omega), if_neg (by omega)]
  cases readZone (zone offset) with
  | none => rfl
  | some p =>
    rw [Option.bind_some, Option.bind_some, if_neg (c := day < 1 ∨ daysIn year month < day) (by omega)]
    rfl

theorem parse_format_iff {t : Timestamp} (h : t.Valid) (hyear : 0 ≤ t.year ∧ t.year ≤ 9999) :
    parse (format t) = some t ↔ WholeMinutes t.offset := by
  rw [parse_format_eq h hyear, ← readZone_zone_iff, Option.bind_eq_some_iff]
  constructor
  · rintro ⟨p, hp, heq⟩
    split at heq
    · cases heq
    · rename_i hnil
      rw [hp, Option.some.injEq]
      refine Prod.ext ?_ (not_not.mp hnil)
      exact congrArg Timestamp.offset (Option.some.inj heq)
  · intro hread
    exact ⟨_, hread, rfl⟩

/-! ### The characters of the text -/

def isPlain (c : Char) : Bool := c.isDigit || ['-', '+', ':', '.', 'T', 'Z'].contains c

theorem plain_padded {w n : ℕ} : (padded w n).all isPlain = true := by
  refine List.all_eq_true.mpr fun c hc => ?_
  rw [isPlain, isDigit_of_mem_padded hc, Bool.true_or]

theorem plain_fraction (n : ℕ) : (fraction n).all isPlain = true := by
  rw [fraction]
  split
  · rfl
  · have hpoint : isPlain '.' = true := rfl
    rw [List.all_cons, hpoint, Bool.true_and]
    refine List.all_eq_true.mpr fun c hc => ?_
    exact List.all_eq_true.mp plain_padded c ((List.rdropWhile_prefix _ _).subset hc)

theorem plain_zone (offset : ℤ) : (zone offset).all isPlain = true := by
  have hcolon : isPlain ':' = true := rfl
  have hminus : isPlain '-' = true := rfl
  have hplus : isPlain '+' = true := rfl
  rw [zone]
  split
  · rfl
  · dsimp only
    rw [List.all_cons, List.all_append, List.all_cons, plain_padded, plain_padded, hcolon]
    split
    · rw [hminus]
      rfl
    · rw [hplus]
      rfl

theorem plain_format (t : Timestamp) : (format t).all isPlain = true := by
  have hminus : isPlain '-' = true := rfl
  have hcolon : isPlain ':' = true := rfl
  have htime : isPlain 'T' = true := rfl
  have hyear : (yearText t.year).all isPlain = true := by
    rw [yearText, List.all_append, plain_padded]
    split
    · rfl
    · rfl
  rw [format]
  simp only [List.all_append, List.all_cons, plain_padded, plain_fraction, plain_zone, hyear, hminus,
    hcolon, htime, Bool.and_self]

end Timestamp
end InvoiceOs.Lib
