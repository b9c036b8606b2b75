import InvoiceOs.Lib.Refusal
import InvoiceOs.Lib.Table

/-! The client of the validation service's batch endpoint, and what it takes from an answer. -/

namespace InvoiceOs.Invoice

open Lib

structure WireViolation where
  ruleKey : String
  severity : String
  message : String
  path : String := ""
  field : String := ""
  expected : Option String := none
  actual : Option String := none
  deriving DecidableEq

/-- An invoice sent under a ref, with the names of the custom-rule sets that judge it too. -/
structure ValidateItem where
  ref : String
  customRuleSets : List String := []

structure WireCustomRule where
  id : String

structure Stamp where
  version : ℤ
  id : String
  deriving DecidableEq

structure ValidateResult where
  ruleSetVersion : ℤ
  stampByRef : Table String Stamp
  byRef : Table String (List WireViolation)
  customByRef : Table String (List String)

/-- One entry of the answer; none is a field left out or null. -/
structure BatchItemResult where
  ref : String
  violations : Option (List WireViolation) := none
  ruleSetVersion : ℤ
  ruleSetVersionID : String
  customRuleIDs : Option (List String) := none
  deriving DecidableEq

structure BatchResponse where
  ruleSetVersion : ℤ
  ruleSetVersionID : String
  results : List BatchItemResult

structure Response where
  status : ℕ
  body : Option BatchResponse

inductive ValidateErr where
  | noActiveRuleSet
  | unreachable
  | status (code : ℕ)
  | undecodable
  | covers (got want : ℕ)
  | omits (ref : String)
  | echoed (ref : String) (got : List String) (want : ℕ)
  | stamp (ref : String) (stamp : Stamp)
  deriving DecidableEq

def wantedIDs (sets : Table String (List WireCustomRule)) (it : ValidateItem) : List String :=
  it.customRuleSets.flatMap fun name => ((sets.get? name).getD []).map WireCustomRule.id

def echoes (want got : List String) : Bool :=
  got.length = want.dedup.length && got.dedup.length = want.dedup.length && got.all (· ∈ want)

def Stamp.valid (st : Stamp) : Bool := st.id ≠ "" && 1 ≤ st.version

/-- The three maps over an answer's entries, a later entry over an earlier of its ref. -/
def collect (wire : BatchResponse) : ValidateResult where
  ruleSetVersion := wire.ruleSetVersion
  stampByRef := .ofList (wire.results.map fun r => (r.ref, ⟨r.ruleSetVersion, r.ruleSetVersionID⟩))
  byRef := .ofList (wire.results.map fun r => (r.ref, r.violations.getD []))
  customByRef := .ofList (wire.results.map fun r => (r.ref, r.customRuleIDs.getD []))

def checkTotal (items : List ValidateItem) (res : ValidateResult) : Except ValidateErr Unit := do
  if res.byRef.rows.length ≠ items.length then
    throw (.covers res.byRef.rows.length items.length)
  match items.find? fun it => (res.byRef.get? it.ref).isNone with
  | some it => throw (.omits it.ref)
  | none => pure ()

def checkEchoes (items : List ValidateItem) (sets : Table String (List WireCustomRule))
    (res : ValidateResult) : Except ValidateErr Unit :=
  match items.find? fun it =>
      !echoes (wantedIDs sets it) ((res.customByRef.get? it.ref).getD []) with
  | some it => throw (.echoed it.ref ((res.customByRef.get? it.ref).getD [])
      (wantedIDs sets it).dedup.length)
  | none => pure ()

def checkStamps (res : ValidateResult) : Except ValidateErr Unit :=
  match res.stampByRef.rows.find? fun e => !e.2.valid with
  | some e => throw (.stamp e.1 e.2)
  | none => pure ()

/-- `ValidateCustom` on the answer the batch got; none where the request failed. -/
def validateCustom (items : List ValidateItem) (sets : Table String (List WireCustomRule))
    (answer : Option Response) : Except ValidateErr ValidateResult :=
  match answer with
  | none => throw .unreachable
  | some resp =>
    if resp.status = 503 then throw .noActiveRuleSet
    else if resp.status ≠ 200 then throw (.status resp.status)
    else match resp.body with
      | none => throw .undecodable
      | some wire => do
        let res := collect wire
        checkTotal items res
        checkEchoes items sets res
        checkStamps res
        pure res

/-! ### What an accepted answer is -/

structure Judges (sets : Table String (List WireCustomRule)) (it : ValidateItem)
    (r : BatchItemResult) : Prop where
  stamped : r.ruleSetVersionID ≠ "" ∧ 1 ≤ r.ruleSetVersion
  once : (r.customRuleIDs.getD []).Nodup
  ids : ∀ id, id ∈ r.customRuleIDs.getD [] ↔ id ∈ wantedIDs sets it

structure Total (items : List ValidateItem) (sets : Table String (List WireCustomRule))
    (wire : BatchResponse) : Prop where
  refs : (wire.results.map BatchItemResult.ref).Perm (items.map ValidateItem.ref)
  judges : ∀ it ∈ items, ∀ r ∈ wire.results, r.ref = it.ref → Judges sets it r

/-- Some ref is answered more than once, though the refs are the sent ones and the last entry of
each judges its item. -/
def HidesEntry (items : List ValidateItem) (sets : Table String (List WireCustomRule))
    (wire : BatchResponse) : Prop :=
  ¬ (wire.results.map BatchItemResult.ref).Nodup ∧
    (∀ ref, ref ∈ wire.results.map BatchItemResult.ref ↔ ref ∈ items.map ValidateItem.ref) ∧
    ∀ it ∈ items, ∀ before r after, wire.results = before ++ r :: after → r.ref = it.ref →
      it.ref ∉ after.map BatchItemResult.ref → Judges sets it r

theorem echoes_iff {want got : List String} :
    echoes want got = true ↔ got.Nodup ∧ ∀ id, id ∈ got ↔ id ∈ want := by
  simp only [echoes, Bool.and_eq_true, decide_eq_true_eq, List.all_eq_true]
  constructor
  · rintro ⟨⟨hlength, hdistinct⟩, hsub⟩
    have hnodup : got.Nodup := by
      rw [← List.dedup_eq_self]
      exact (List.dedup_sublist got).eq_of_length (hdistinct.trans hlength.symm)
    have hperm : got.Perm want.dedup :=
      (hnodup.subperm fun id hid => List.mem_dedup.mpr (hsub id hid)).perm_of_length_le
        hlength.symm.le
    exact ⟨hnodup, fun id => hperm.mem_iff.trans List.mem_dedup⟩
  · rintro ⟨hnodup, hids⟩
    have hperm : got.Perm want.dedup :=
      (List.perm_ext_iff_of_nodup hnodup (List.nodup_dedup want)).mpr fun id =>
        (hids id).trans List.mem_dedup.symm
    refine ⟨⟨hperm.length_eq, ?_⟩, fun id hid => (hids id).mp hid⟩
    rw [List.dedup_eq_self.mpr hnodup, hperm.length_eq]

section
variable {items : List ValidateItem} {sets : Table String (List WireCustomRule)}
  {wire : BatchResponse} {answer : Option Response} {res : ValidateResult}

theorem checkTotal_eq_ok : checkTotal items (collect wire) = .ok () ↔
    (wire.results.map BatchItemResult.ref).toFinset.card = items.length ∧
      ∀ it ∈ items, it.ref ∈ wire.results.map BatchItemResult.ref := by
  have hlength : (collect wire).byRef.rows.length =
      (wire.results.map BatchItemResult.ref).toFinset.card := by
    rw [collect, Table.length_rows_ofList, List.map_map]
    rfl
  have hrefs : ∀ ref, (collect wire).byRef.get? ref = none ↔
      ref ∉ wire.results.map BatchItemResult.ref := by
    intro ref
    have hkeys : wire.results.map BatchItemResult.ref =
        (wire.results.map fun r => (r.ref, r.violations.getD [])).map Prod.fst := by
      rw [List.map_map]
      rfl
    rw [hkeys]
    constructor
    · intro hnone hmem
      obtain ⟨vs, hvs⟩ := Table.get?_ofList_of_mem hmem
      exact Option.some_ne_none _ (hvs.symm.trans hnone)
    · intro hmem
      cases h : (collect wire).byRef.get? ref with
      | none => rfl
      | some vs => exact absurd (List.mem_map_of_mem (f := Prod.fst) (Table.mem_of_get?_ofList h)) hmem
  unfold checkTotal
  rw [refuse_eq_ok, not_not, hlength]
  refine and_congr_right fun _ => ?_
  split
  · rename_i it hit
    refine ⟨fun h => absurd h (by simp), fun h => ?_⟩
    have hnone := List.find?_some hit
    rw [Option.isNone_iff_eq_none, hrefs] at hnone
    exact absurd (h it (List.mem_of_find?_eq_some hit)) hnone
  · rename_i hall
    refine ⟨fun _ it hit => ?_, fun _ => rfl⟩
    by_contra hmem
    have hsome := List.find?_eq_none.mp hall it hit
    rw [Option.isNone_iff_eq_none, hrefs] at hsome
    exact hsome hmem

theorem refs_iff (hitems : (items.map ValidateItem.ref).Nodup) (refs : List String) :
    (refs.toFinset.card = items.length ∧ ∀ it ∈ items, it.ref ∈ refs) ↔
      ∀ ref, ref ∈ refs ↔ ref ∈ items.map ValidateItem.ref := by
  have hcard : (items.map ValidateItem.ref).toFinset.card = items.length := by
    rw [List.toFinset_card_of_nodup hitems, List.length_map]
  constructor
  · rintro ⟨hlength, hall⟩ ref
    have hsub : (items.map ValidateItem.ref).toFinset ⊆ refs.toFinset := by
      intro ref hmem
      obtain ⟨it, hit, rfl⟩ := List.mem_map.mp (List.mem_toFinset.mp hmem)
      exact List.mem_toFinset.mpr (hall it hit)
    have heq := Finset.eq_of_subset_of_card_le hsub (by rw [hlength, hcard])
    rw [← List.mem_toFinset, ← heq, List.mem_toFinset]
  · intro h
    have heq : refs.toFinset = (items.map ValidateItem.ref).toFinset := by
      ext ref
      rw [List.mem_toFinset, List.mem_toFinset, h]
    exact ⟨by rw [heq, hcard], fun it hit => (h it.ref).mpr (List.mem_map_of_mem hit)⟩

theorem checkEchoes_eq_ok : checkEchoes items sets res = .ok () ↔
    ∀ it ∈ items, echoes (wantedIDs sets it) ((res.customByRef.get? it.ref).getD []) = true := by
  unfold checkEchoes
  split
  · rename_i it hit
    refine ⟨fun h => absurd h (by simp), fun h => ?_⟩
    have hbad := List.find?_some hit
    rw [h it (List.mem_of_find?_eq_some hit)] at hbad
    cases hbad
  · rename_i hall
    refine ⟨fun _ it hit => ?_, fun _ => rfl⟩
    simpa using List.find?_eq_none.mp hall it hit

theorem checkStamps_eq_ok : checkStamps res = .ok () ↔
    ∀ ref st, res.stampByRef.get? ref = some st → st.valid = true := by
  unfold checkStamps
  split
  · rename_i e he
    refine ⟨fun h => absurd h (by simp), fun h => ?_⟩
    have hbad := List.find?_some he
    rw [h e.1 e.2 (Table.mem_rows.mp (List.mem_of_find?_eq_some he))] at hbad
    cases hbad
  · rename_i hall
    refine ⟨fun _ ref st hst => ?_, fun _ => rfl⟩
    simpa using List.find?_eq_none.mp hall (ref, st) (Table.mem_rows.mpr hst)

theorem validateCustom_eq_ok : validateCustom items sets answer = .ok res ↔
    ∃ wire, answer = some ⟨200, some wire⟩ ∧ res = collect wire ∧
      checkTotal items res = .ok () ∧ checkEchoes items sets res = .ok () ∧
      checkStamps res = .ok () := by
  cases answer with
  | none =>
    refine ⟨fun h => ?_, fun ⟨_, h, _⟩ => by cases h⟩
    cases h
  | some resp =>
    obtain ⟨status, body⟩ := resp
    unfold validateCustom
    dsimp only
    rw [check_eq_ok, check_eq_ok, not_not]
    constructor
    · rintro ⟨-, rfl, h⟩
      cases body with
      | none => cases h
      | some wire =>
        simp only [bind_eq_ok, pure_eq_ok] at h
        obtain ⟨⟨⟩, htotal, ⟨⟩, hechoes, ⟨⟩, hstamps, rfl⟩ := h
        exact ⟨wire, rfl, rfl, htotal, hechoes, hstamps⟩
    · rintro ⟨wire, hanswer, rfl, htotal, hechoes, hstamps⟩
      cases hanswer
      refine ⟨by decide, rfl, ?_⟩
      simp only [bind_eq_ok, pure_eq_ok]
      exact ⟨(), htotal, (), hechoes, (), hstamps, trivial⟩

theorem exists_last {ref : String} : ∀ {results : List BatchItemResult},
    ref ∈ results.map BatchItemResult.ref → ∃ before r after, results = before ++ r :: after ∧
      r.ref = ref ∧ ref ∉ after.map BatchItemResult.ref := by
  intro results
  induction results with
  | nil => exact nofun
  | cons r results ih =>
    intro h
    by_cases hlater : ref ∈ results.map BatchItemResult.ref
    · obtain ⟨before, r', after, rfl, href, hlast⟩ := ih hlater
      exact ⟨r :: before, r', after, rfl, href, hlast⟩
    · have href := (List.mem_cons.mp h).resolve_right hlater
      exact ⟨[], r, results, rfl, href.symm, hlater⟩

theorem collect_last {before after : List BatchItemResult} {r : BatchItemResult}
    (hresults : wire.results = before ++ r :: after)
    (hlast : r.ref ∉ after.map BatchItemResult.ref) :
    (collect wire).byRef.get? r.ref = some (r.violations.getD []) ∧
      (collect wire).stampByRef.get? r.ref = some ⟨r.ruleSetVersion, r.ruleSetVersionID⟩ ∧
      (collect wire).customByRef.get? r.ref = some (r.customRuleIDs.getD []) := by
  have hkeys : ∀ {β : Type} (f : BatchItemResult → β),
      r.ref ∉ (after.map fun r => (r.ref, f r)).map Prod.fst := by
    intro β f
    rw [List.map_map]
    exact hlast
  unfold collect
  rw [hresults]
  simp only [List.map_append, List.map_cons]
  exact ⟨Table.get?_ofList_last _ _ _ (hkeys _), Table.get?_ofList_last _ _ _ (hkeys _),
    Table.get?_ofList_last _ _ _ (hkeys _)⟩

theorem Stamp.valid_iff {st : Stamp} : st.valid = true ↔ st.id ≠ "" ∧ 1 ≤ st.version := by
  simp only [Stamp.valid, Bool.and_eq_true, decide_eq_true_eq, ne_eq]

theorem accepted_iff (hitems : (items.map ValidateItem.ref).Nodup) :
    (checkTotal items (collect wire) = .ok () ∧ checkEchoes items sets (collect wire) = .ok () ∧
      checkStamps (collect wire) = .ok ()) ↔
    (∀ ref, ref ∈ wire.results.map BatchItemResult.ref ↔ ref ∈ items.map ValidateItem.ref) ∧
      ∀ it ∈ items, ∀ before r after, wire.results = before ++ r :: after → r.ref = it.ref →
        it.ref ∉ after.map BatchItemResult.ref → Judges sets it r := by
  rw [checkTotal_eq_ok, refs_iff hitems, checkEchoes_eq_ok, checkStamps_eq_ok]
  refine and_congr_right fun hrefs => ⟨?_, fun hjudges => ⟨fun it hit => ?_, fun ref st hst => ?_⟩⟩
  · rintro ⟨hechoes, hstamps⟩ it hit before r after hresults href hlast
    rw [← href] at hlast
    obtain ⟨-, hstamp, hcustom⟩ := collect_last hresults hlast
    have hecho := hechoes it hit
    rw [← href, hcustom, Option.getD_some, echoes_iff] at hecho
    exact ⟨Stamp.valid_iff.mp (hstamps _ _ hstamp), hecho.1, hecho.2⟩
  · obtain ⟨before, r, after, hresults, href, hlast⟩ :=
      exists_last ((hrefs it.ref).mpr (List.mem_map_of_mem hit))
    have hj := hjudges it hit before r after hresults href hlast
    rw [← href] at hlast ⊢
    rw [(collect_last hresults hlast).2.2, Option.getD_some, echoes_iff]
    exact ⟨hj.once, hj.ids⟩
  · have hmem : ref ∈ wire.results.map BatchItemResult.ref := by
      obtain ⟨r, hr, heq⟩ := List.mem_map.mp (Table.mem_of_get?_ofList hst)
      exact List.mem_map.mpr ⟨r, hr, (Prod.mk.inj heq).1⟩
    obtain ⟨it, hit, hitref⟩ := List.mem_map.mp ((hrefs ref).mp hmem)
    obtain ⟨before, r, after, hresults, href, hlast⟩ := exists_last hmem
    have hj := hjudges it hit before r after hresults (href.trans hitref.symm) (hitref ▸ hlast)
    rw [← href] at hlast hst
    rw [(collect_last hresults hlast).2.1] at hst
    obtain rfl := Option.some.inj hst
    exact Stamp.valid_iff.mpr hj.stamped

/-- A result is taken from a total answer only, and holds each ref's own violations, unless the
answer hides an entry behind a later one of its ref. -/
theorem verdict_of_total_answer_iff (hitems : (items.map ValidateItem.ref).Nodup) :
    (∀ res, validateCustom items sets answer = .ok res →
      ∃ wire, answer = some ⟨200, some wire⟩ ∧ Total items sets wire ∧
        ∀ r ∈ wire.results, res.byRef.get? r.ref = some (r.violations.getD [])) ↔
    ∀ wire, answer = some ⟨200, some wire⟩ → ¬ HidesEntry items sets wire := by
  constructor
  · rintro hverdict wire rfl ⟨hrepeat, hlast⟩
    obtain ⟨htotal, hechoes, hstamps⟩ := (accepted_iff hitems).mpr hlast
    obtain ⟨wire', hwire, hall, -⟩ := hverdict _
      (validateCustom_eq_ok.mpr ⟨wire, rfl, rfl, htotal, hechoes, hstamps⟩)
    cases hwire
    exact hrepeat (hall.refs.nodup_iff.mpr hitems)
  · rintro hclean res hok
    obtain ⟨wire, rfl, rfl, hchecks⟩ := validateCustom_eq_ok.mp hok
    obtain ⟨hrefs, hjudges⟩ := (accepted_iff hitems).mp hchecks
    have hdistinct : (wire.results.map BatchItemResult.ref).Nodup := by
      by_contra hrepeat
      exact hclean wire rfl ⟨hrepeat, hrefs, hjudges⟩
    -- with no ref twice, every entry is the last of its ref
    have hown : ∀ r ∈ wire.results, ∃ before after, wire.results = before ++ r :: after ∧
        r.ref ∉ after.map BatchItemResult.ref := by
      intro r hr
      obtain ⟨before, after, hresults⟩ := List.append_of_mem hr
      refine ⟨before, after, hresults, fun hmem => ?_⟩
      rw [hresults, List.map_append, List.map_cons, List.nodup_append] at hdistinct
      exact (List.nodup_cons.mp hdistinct.2.1).1 hmem
    refine ⟨wire, rfl, ⟨(List.perm_ext_iff_of_nodup hdistinct hitems).mpr hrefs, ?_⟩, ?_⟩
    · intro it hit r hr href
      obtain ⟨before, after, hresults, hlast⟩ := hown r hr
      exact hjudges it hit before r after hresults href (href ▸ hlast)
    · intro r hr
      obtain ⟨before, after, hresults, hlast⟩ := hown r hr
      exact (collect_last hresults hlast).1

end

def answeredTwice : BatchResponse where
  ruleSetVersion := 1
  ruleSetVersionID := "rs-1"
  results := [
    { ref := "INV-1", violations := some [⟨"total-matches", "error", "", "total", "", none, none⟩],
      ruleSetVersion := 1, ruleSetVersionID := "rs-1" },
    { ref := "INV-1", ruleSetVersion := 1, ruleSetVersionID := "rs-1" }]

theorem answered_twice_accepted :
    (validateCustom [⟨"INV-1", []⟩] ∅ (some ⟨200, some answeredTwice⟩)).toOption.map
        (·.byRef.get? "INV-1") = some (some []) ∧
      ¬ Total [⟨"INV-1", []⟩] ∅ answeredTwice := by
  refine ⟨by decide +kernel, fun h => ?_⟩
  have hlength := h.refs.length_eq
  cases hlength

def answeredOnce : BatchResponse := { answeredTwice with results := answeredTwice.results.take 1 }

theorem verdict_of_total_answer_iff_sample :
    ∃ res, validateCustom [⟨"INV-1", []⟩] ∅ (some ⟨200, some answeredOnce⟩) = .ok res ∧
      res.byRef.get? "INV-1" = some [⟨"total-matches", "error", "", "total", "", none, none⟩] := by
  have hsome : (validateCustom [⟨"INV-1", []⟩] ∅ (some ⟨200, some answeredOnce⟩)).toOption.isSome =
      true := by decide +kernel
  obtain ⟨res, hres⟩ := Option.isSome_iff_exists.mp hsome
  have hok := toOption_eq_some.mp hres
  have hitems : ([⟨"INV-1", []⟩].map ValidateItem.ref).Nodup := by decide
  have hclean : ∀ wire, some (Response.mk 200 (some answeredOnce)) = some ⟨200, some wire⟩ →
      ¬ HidesEntry [⟨"INV-1", []⟩] ∅ wire := by
    intro wire hwire hhides
    cases hwire
    exact hhides.1 (by decide)
  obtain ⟨wire, hwire, -, hown⟩ := (verdict_of_total_answer_iff hitems).mpr hclean res hok
  cases hwire
  exact ⟨res, hok, hown _ List.mem_cons_self⟩

end InvoiceOs.Invoice
