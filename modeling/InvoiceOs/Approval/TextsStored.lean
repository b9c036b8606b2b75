import InvoiceOs.Approval.StepTexts
import InvoiceOs.Approval.TreeStored

/-! A tree of texts comes back from storage as it was sent, but for the spelling the two columns give
their values. -/

namespace InvoiceOs.Approval

open Lib

/-! ### Another form of a tree -/

section
variable {Amount Person Amount' Person' : Type} {amount : Amount → Amount'}
  {person : Person → Person'}

theorem StepOf.map_eq (s : StepOf Amount Person) : s.map amount person =
    (s.fields.map amount person).step (mapLane amount person s.thenLane)
      (mapLane amount person s.elseLane) := by
  cases s
  rfl

theorem flattenLane_map (mint : ℕ → Uuid) (lane : List (StepOf Amount Person)) (n : ℕ)
    (parent : Option Uuid) (branch : Option Branch) (i : ℕ) :
    flattenLane mint n parent branch i (mapLane amount person lane) =
      ((flattenLane mint n parent branch i lane).1.map (StepRow.map amount person),
        (flattenLane mint n parent branch i lane).2) := by
  induction lane using lane_induction generalizing n parent branch i with
  | hnil => rfl
  | hcons s lane hthen helse hlane =>
    have hthenRows : thenRows mint n (s.map amount person) =
        ((thenRows mint n s).1.map (StepRow.map amount person), (thenRows mint n s).2) := by
      rw [StepOf.map_eq]
      exact hthen _ _ _ _
    have helseRows : elseRows mint n (s.map amount person) =
        ((elseRows mint n s).1.map (StepRow.map amount person), (elseRows mint n s).2) := by
      rw [elseRows, hthenRows, StepOf.map_eq]
      exact helse _ _ _ _
    rw [mapLane, flattenLane_cons, flattenLane_cons, hthenRows, helseRows, hlane, StepOf.map_eq]
    simp only [List.map_append, List.map_cons]
    rfl

theorem flattenSteps_map (mint : ℕ → Uuid) (tree : List (StepOf Amount Person)) :
    flattenSteps mint (mapLane amount person tree) =
      (flattenSteps mint tree).map (StepRow.map amount person) := by
  rw [flattenSteps, flattenLane_map]
  rfl

theorem map_id_flattenSteps (mint : ℕ → Uuid) (tree : List (StepOf Amount Person)) :
    (flattenSteps mint (mapLane amount person tree)).map StepRow.id =
      (flattenSteps mint tree).map StepRow.id := by
  rw [flattenSteps_map, List.map_map]
  rfl

theorem laneFields_map (lane : List (StepOf Amount Person)) :
    laneFields (mapLane amount person lane) =
      (laneFields lane).map (StepFields.map amount person) := by
  induction lane using lane_induction with
  | hnil => rfl
  | hcons s lane hthen helse hlane =>
    rw [mapLane, laneFields_cons, laneFields_cons, hlane, StepOf.map_eq, List.map_append,
      List.map_cons, List.map_append, ← hthen, ← helse]
    rfl

theorem mapLane_mapLane {Amount'' Person'' : Type} {amount' : Amount' → Amount''}
    {person' : Person' → Person''} {amount'' : Amount → Amount''} {person'' : Person → Person''}
    (lane : List (StepOf Amount Person))
    (h : ∀ f ∈ laneFields lane, (f.map amount person).map amount' person' = f.map amount'' person'') :
    mapLane amount' person' (mapLane amount person lane) = mapLane amount'' person'' lane := by
  induction lane using lane_induction with
  | hnil => rfl
  | hcons s lane hthen helse hlane =>
    rw [laneFields_cons] at h
    have hown := h s.fields (List.mem_append_left _ List.mem_cons_self)
    have hthen' := hthen fun f hf => h f (List.mem_append_left _
      (List.mem_cons_of_mem _ (List.mem_append_left _ hf)))
    have helse' := helse fun f hf => h f (List.mem_append_left _
      (List.mem_cons_of_mem _ (List.mem_append_right _ hf)))
    have hlane' := hlane fun f hf => h f (List.mem_append_right _ hf)
    rw [mapLane, mapLane, mapLane, hlane', StepOf.map_eq s, StepOf.map_eq s, StepOf.map_eq, ← hown,
      ← hthen', ← helse']
    rfl

end

/-! ### A valid tree of texts -/

section
variable {x : TextReaders}

theorem validateCondAmount_eq_ok {a : String} (h : StepInput.validateCondAmount x a = .ok ()) :
    ∃ d, x.newFromString a = some d ∧ -2 ≤ d.exponent ∧ d.hundredths.natAbs < 10 ^ 14 := by
  unfold StepInput.validateCondAmount at h
  cases hd : x.newFromString a with
  | none =>
    rw [hd] at h
    cases h
  | some d =>
    rw [hd] at h
    simp only [refuse_eq_ok, check_eq_ok, not_lt, not_or, not_le, ge_iff_le] at h
    exact ⟨d, rfl, h.2.1, h.2.2.1.2⟩

theorem delegateSpelled_eq_true {id : String} (h : StepInput.delegateSpelled x id = true) :
    ∃ u, x.uuidParse id = some u ∧ u.text = toLower id := by
  obtain ⟨-, hid⟩ := Bool.and_eq_true_iff.mp h
  obtain ⟨u, hu, htext⟩ := (Option.any_eq_true _ _).mp hid
  exact ⟨u, hu, beq_iff_eq.mp htext⟩

structure TextsValid (x : TextReaders) (f : StepFields String String) : Prop where
  amount : ∀ a, f.condAmount = some a → StepInput.validateCondAmount x a = .ok ()
  delegate : ∀ id, f.delegateUserID = some id → StepInput.delegateSpelled x id = true

theorem checkStepFields_texts {s : StepInput} (h : StepInput.validateStepFields x s = .ok ()) :
    TextsValid x s.fields := by
  simp only [StepInput.validateStepFields, checkStepFields, refuse_eq_ok] at h
  obtain ⟨-, -, hdelegate, -, hrest⟩ := h
  refine ⟨fun a ha => ?_, fun id hid => ?_⟩
  · have hamount : s.condAmount = some a := ha
    rw [hamount] at hrest
    obtain ⟨⟨⟩, hvalid, -⟩ := bind_eq_ok.mp hrest
    exact hvalid
  · have hperson : s.delegateUserID = some id := hid
    rw [hperson, Option.any_some, Bool.or_eq_true, not_or, Bool.not_eq_true', Bool.not_eq_true',
      Bool.not_eq_false, Bool.not_eq_false] at hdelegate
    exact hdelegate.2

theorem checkLane_texts {nested : Bool} (lane : List StepInput)
    (h : checkLane (StepInput.validateStepFields x) nested lane = .ok ()) :
    ∀ f ∈ laneFields lane, TextsValid x f := by
  induction lane using lane_induction generalizing nested with
  | hnil => exact fun f hf => absurd hf List.not_mem_nil
  | hcons s lane hthen helse hlane =>
    obtain ⟨-, -, hfields, hvthen, hvelse, hvlane⟩ := checkLane_eq_ok.mp h
    rw [laneFields_cons]
    intro f hf
    rcases List.mem_append.mp hf with hf | hf
    · obtain rfl | hf := List.mem_cons.mp hf
      · exact checkStepFields_texts hfields
      · rcases List.mem_append.mp hf with hf | hf
        · exact hthen hvthen f hf
        · exact helse hvelse f hf
    · exact hlane hvlane f hf

end

/-! ### What the columns make of it -/

def readAmount (x : TextReaders) (a : String) : Numeric := (x.numericIn a).getD .nan

def readPerson (x : TextReaders) (id : String) : Uuid := (x.uuidIn id).getD 0

def amountRead (x : TextReaders) (f : StepFields String String) : Bool :=
  f.condAmount.all fun a => (x.numericIn a).isSome

def delegateIn (x : TextReaders) (d : Directory) (f : StepFields String String) : Bool :=
  f.delegateUserID.all fun id => (x.uuidParse id).any fun u => d.members.any fun m => m.userID == u

section
variable {x : TextReaders} (hx : x.Agree)
include hx

theorem amount_of_read {a : String} {v : Numeric} (h : StepInput.validateCondAmount x a = .ok ())
    (hv : x.numericIn a = some v) :
    validateCondAmount v = .ok () ∧ v.text = columnAmount x a := by
  obtain ⟨d, hd, hscale, hbound⟩ := validateCondAmount_eq_ok h
  obtain rfl := hx.amount a d v hd hscale hv
  refine ⟨?_, ?_⟩
  · simp only [validateCondAmount, check_eq_ok, not_le, ge_iff_le, pure_eq_ok, and_true]
    exact hbound
  · rw [columnAmount, hd]

theorem person_of_spelled {id : String} (h : StepInput.delegateSpelled x id = true) :
    ∃ u, x.uuidParse id = some u ∧ x.uuidIn id = some u ∧ u.text = toLower id := by
  obtain ⟨u, hu, htext⟩ := delegateSpelled_eq_true h
  exact ⟨u, hu, hx.person id u hu htext, htext⟩

theorem TextsValid.printed {f : StepFields String String} (h : TextsValid x f)
    (hread : amountRead x f = true) :
    (f.map (readAmount x) (readPerson x)).map Numeric.text Uuid.text =
      f.map (columnAmount x) toLower := by
  have hamount : ((f.condAmount.map (readAmount x)).map Numeric.text) =
      f.condAmount.map (columnAmount x) := by
    cases ha : f.condAmount with
    | none => rfl
    | some a =>
      rw [amountRead, ha, Option.all_some] at hread
      obtain ⟨v, hv⟩ := Option.isSome_iff_exists.mp hread
      simp only [Option.map_some, readAmount, hv, Option.getD_some,
        (amount_of_read hx (h.amount a ha) hv).2]
  have hperson : ((f.delegateUserID.map (readPerson x)).map Uuid.text) =
      f.delegateUserID.map toLower := by
    cases hid : f.delegateUserID with
    | none => rfl
    | some id =>
      obtain ⟨u, -, hu, htext⟩ := person_of_spelled hx (h.delegate id hid)
      simp only [Option.map_some, readPerson, hu, Option.getD_some, htext]
  simp only [StepFields.map, hamount, hperson]

theorem TextsValid.member {f : StepFields String String} (h : TextsValid x f) (d : Directory) :
    delegateMember d (f.map (readAmount x) (readPerson x)) = delegateIn x d f := by
  cases hid : f.delegateUserID with
  | none =>
    simp only [delegateMember, delegateIn, StepFields.map, hid, Option.map_none, Option.all_none]
  | some id =>
    obtain ⟨u, hparse, hu, -⟩ := person_of_spelled hx (h.delegate id hid)
    simp only [delegateMember, delegateIn, StepFields.map, hid, Option.map_some, Option.all_some,
      readPerson, hu, hparse, Option.getD_some, Option.any_some]

theorem castRow_eq {r : StepRow String String} (h : TextsValid x r.fields) :
    StepInput.castRow x r = if amountRead x r.fields
      then .ok (r.map (readAmount x) (readPerson x)) else .error .invalidText := by
  have hperson : StepInput.castColumn x.uuidIn r.fields.delegateUserID =
      .ok (r.fields.delegateUserID.map (readPerson x)) := by
    cases hid : r.fields.delegateUserID with
    | none => rfl
    | some id =>
      obtain ⟨u, -, hu, -⟩ := person_of_spelled hx (h.delegate id hid)
      simp only [StepInput.castColumn, hu, Option.map_some, readPerson, Option.getD_some]
      rfl
  unfold StepInput.castRow
  rw [hperson]
  cases ha : r.fields.condAmount with
  | none =>
    simp only [amountRead, ha, Option.all_none, if_true]
    simp only [StepRow.map, StepFields.map, ha]
    rfl
  | some a =>
    cases hv : x.numericIn a with
    | none =>
      simp only [StepInput.castColumn, amountRead, ha, hv, Option.all_some, Option.isSome_none]
      rfl
    | some v =>
      simp only [StepInput.castColumn, amountRead, ha, hv, Option.all_some, Option.isSome_some,
        if_true, StepRow.map, StepFields.map, Option.map_some, readAmount, Option.getD_some]
      rfl

theorem validateStepFields_map {s : StepInput} (h : StepInput.validateStepFields x s = .ok ())
    (hread : amountRead x s.fields = true) :
    validateStepFields (s.map (readAmount x) (readPerson x)) = .ok () := by
  have htexts := checkStepFields_texts h
  rw [StepOf.map_eq]
  simp only [StepInput.validateStepFields, validateStepFields, checkStepFields, refuse_eq_ok,
    StepFields.step, StepFields.map, StepOf.fields, Option.isSome_map, Option.isNone_map,
    Option.any_map] at h ⊢
  obtain ⟨hnul, hkind, hdelegate, hhours, hrest⟩ := h
  refine ⟨hnul, hkind, ?_, hhours, ?_⟩
  · cases hid : s.delegateUserID with
    | none => exact Bool.false_ne_true
    | some id =>
      rw [hid, Option.any_some, Bool.or_eq_true, not_or] at hdelegate
      simpa only [Option.any_some, Function.comp_apply, Bool.not_true, Bool.or_false] using
        hdelegate.1
  · cases ha : s.condAmount with
    | none =>
      rw [ha] at hrest
      exact hrest
    | some a =>
      have hown : s.fields.condAmount = some a := ha
      rw [amountRead, hown, Option.all_some] at hread
      obtain ⟨v, hv⟩ := Option.isSome_iff_exists.mp hread
      rw [ha] at hrest
      obtain ⟨⟨⟩, hvalid, hrest⟩ := bind_eq_ok.mp hrest
      refine bind_eq_ok.mpr ⟨(), ?_, hrest⟩
      rw [readAmount, hv, Option.getD_some]
      exact (amount_of_read hx hvalid hv).1

theorem checkLane_map {nested : Bool} (lane : List StepInput)
    (h : checkLane (StepInput.validateStepFields x) nested lane = .ok ())
    (hread : ∀ f ∈ laneFields lane, amountRead x f = true) :
    checkLane validateStepFields nested (mapLane (readAmount x) (readPerson x) lane) = .ok () := by
  induction lane using lane_induction generalizing nested with
  | hnil => rfl
  | hcons s lane hthen helse hlane =>
    obtain ⟨hdepth, hlanes, hfields, hvthen, hvelse, hvlane⟩ := checkLane_eq_ok.mp h
    rw [laneFields_cons] at hread
    have hown := validateStepFields_map hx hfields
      (hread s.fields (List.mem_append_left _ List.mem_cons_self))
    have hthen' := hthen hvthen fun f hf => hread f (List.mem_append_left _
      (List.mem_cons_of_mem _ (List.mem_append_left _ hf)))
    have helse' := helse hvelse fun f hf => hread f (List.mem_append_left _
      (List.mem_cons_of_mem _ (List.mem_append_right _ hf)))
    have hlane' := hlane hvlane fun f hf => hread f (List.mem_append_right _ hf)
    refine checkLane_eq_ok.mpr ⟨?_, ?_, hown, ?_, ?_, hlane'⟩
    · rw [StepOf.map_eq]
      exact hdepth
    · rw [StepOf.map_eq]
      have hempty : ∀ l : List StepInput,
          (mapLane (readAmount x) (readPerson x) l).isEmpty = l.isEmpty := by
        intro l
        cases l <;> rfl
      simp only [StepFields.step, StepFields.map, hempty]
      exact hlanes
    · rw [StepOf.map_eq]
      exact hthen'
    · rw [StepOf.map_eq]
      exact helse'

end

/-! ### The round trip -/

section
variable {x : TextReaders} {d : Directory} {mint : ℕ → Uuid} {table : StepTable}
  {versionID : Uuid} {tree : List StepInput}

theorem read_of_inserted {stored : StepTable} (hx : x.Agree)
    (hvalid : StepInput.validateTree x tree = .ok ())
    (h : insertPolicySteps (StepInput.castRow x) d table versionID (flattenSteps mint tree) =
      .ok stored) : ∀ f ∈ laneFields tree, amountRead x f = true := by
  have htexts := checkLane_texts tree hvalid
  unfold insertPolicySteps at h
  simp only [bind_eq_ok] at h
  obtain ⟨roots, hroots, table', -, children, hchildren, -⟩ := h
  rw [← map_fields_flattenSteps mint] at htexts ⊢
  intro f hf
  obtain ⟨r, hr, rfl⟩ := List.mem_map.mp hf
  have hcast : ∃ v, StepInput.castRow x r = .ok v := by
    cases hp : r.parentStepID.isNone with
    | true =>
      obtain ⟨v, -, hv⟩ := exists_mem_mapM hroots (List.mem_filter.mpr ⟨hr, hp⟩)
      rw [asRoot_eq hr hp] at hv
      exact ⟨v, hv⟩
    | false =>
      obtain ⟨v, -, hv⟩ := exists_mem_mapM hchildren (List.mem_filter.mpr ⟨hr, by rw [hp]; rfl⟩)
      exact ⟨v, hv⟩
  obtain ⟨v, hv⟩ := hcast
  rw [castRow_eq hx (htexts _ hf)] at hv
  by_contra hno
  rw [if_neg hno] at hv
  cases hv

theorem inserted_eq (hx : x.Agree) (hvalid : StepInput.validateTree x tree = .ok ())
    (hids : (table.map (fun r => r.2.id) ++ (flattenSteps mint tree).map StepRow.id).Nodup)
    (hslots : (table.map slot).Nodup) (hcleared : ∀ r ∈ table, r.1 ≠ versionID)
    (hread : ∀ f ∈ laneFields tree, amountRead x f = true) :
    insertPolicySteps (StepInput.castRow x) d table versionID (flattenSteps mint tree) =
        (if (laneFields tree).all (delegateIn x d) then
          .ok (table ++ treeRows mint versionID (mapLane (readAmount x) (readPerson x) tree))
        else .error .policyDelegateNotMember) ∧
      ((table ++ treeRows mint versionID (mapLane (readAmount x) (readPerson x) tree)).map
        slot).Nodup := by
  have htexts := checkLane_texts tree hvalid
  have hcast : ∀ r ∈ flattenSteps mint tree,
      StepInput.castRow x r = .ok (r.map (readAmount x) (readPerson x)) := by
    intro r hr
    have hf : r.fields ∈ laneFields tree := by
      rw [← map_fields_flattenSteps mint]
      exact List.mem_map_of_mem hr
    rw [castRow_eq hx (htexts _ hf), if_pos (hread _ hf)]
  have hmembers : (laneFields (mapLane (readAmount x) (readPerson x) tree)).all (delegateMember d) =
      (laneFields tree).all (delegateIn x d) := by
    rw [laneFields_map, List.all_map]
    have hown : ∀ f ∈ laneFields tree,
        (delegateMember d ∘ StepFields.map (readAmount x) (readPerson x)) f = delegateIn x d f :=
      fun f hf => (htexts f hf).member hx d
    rw [Bool.eq_iff_iff, List.all_eq_true, List.all_eq_true]
    exact forall₂_congr fun f hf => by rw [hown f hf]
  rw [← hmembers]
  exact insertPolicySteps_eq hcast (fun _ => rfl) (flattenSteps_map mint tree).symm
    (checkLane_map hx tree hvalid hread) (by rwa [map_id_flattenSteps]) hslots hcleared

/-- A valid tree of texts is stored exactly if the amount column reads its amounts and its delegates
are members, and is refused under the delegates' sentinel if only these fail. Stored, its slots are
free, and every read of the version nests to the tree it was, each amount with two decimals and each
delegate in lower case. -/
theorem tree_survives_storage (hx : x.Agree) (hvalid : StepInput.validateTree x tree = .ok ())
    (hids : (table.map (fun r => r.2.id) ++ (flattenSteps mint tree).map StepRow.id).Nodup)
    (hslots : (table.map slot).Nodup) (hcleared : ∀ r ∈ table, r.1 ≠ versionID) :
    ((∃ stored, insertPolicySteps (StepInput.castRow x) d table versionID (flattenSteps mint tree) =
        .ok stored) ↔ ∀ f ∈ laneFields tree, amountRead x f = true ∧ delegateIn x d f = true) ∧
      ((∀ f ∈ laneFields tree, amountRead x f = true) →
        (∃ f ∈ laneFields tree, delegateIn x d f = false) →
        insertPolicySteps (StepInput.castRow x) d table versionID (flattenSteps mint tree) =
          .error .policyDelegateNotMember) ∧
      ∀ stored, insertPolicySteps (StepInput.castRow x) d table versionID (flattenSteps mint tree) =
          .ok stored →
        (stored.map slot).Nodup ∧
        ∃ depth, ∀ fuel versionIDs result, depth ≤ fuel → versionID ∈ versionIDs →
          ReadAs stored versionIDs result →
          ∃ views, (versionID, some views) ∈ readPolicyTrees fuel versionIDs (showRows result) ∧
            readLane views = mapLane (columnAmount x) toLower tree := by
  have hinsert := inserted_eq (d := d) hx hvalid hids hslots hcleared
  refine ⟨⟨?_, ?_⟩, ?_, ?_⟩
  · rintro ⟨stored, hok⟩ f hf
    have hread := read_of_inserted hx hvalid hok
    refine ⟨hread f hf, ?_⟩
    rw [(hinsert hread).1] at hok
    by_contra hno
    have hall : ¬ (laneFields tree).all (delegateIn x d) = true := fun hall =>
      hno (List.all_eq_true.mp hall f hf)
    rw [if_neg hall] at hok
    cases hok
  · intro h
    rw [(hinsert fun f hf => (h f hf).1).1,
      if_pos (List.all_eq_true.mpr fun f hf => (h f hf).2)]
    exact ⟨_, rfl⟩
  · rintro hread ⟨f, hf, hout⟩
    have hall : ¬ (laneFields tree).all (delegateIn x d) = true := fun hall =>
      Bool.false_ne_true (hout.symm.trans (List.all_eq_true.mp hall f hf))
    rw [(hinsert hread).1, if_neg hall]
  · intro stored hok
    have hread := read_of_inserted hx hvalid hok
    obtain ⟨heq, hstored⟩ := hinsert hread
    rw [heq] at hok
    split at hok
    · cases hok
      refine ⟨hstored, ?_⟩
      have htexts := checkLane_texts tree hvalid
      have hshown : mapLane Numeric.text Uuid.text (mapLane (readAmount x) (readPerson x) tree) =
          mapLane (columnAmount x) toLower tree :=
        mapLane_mapLane tree fun f hf => (htexts f hf).printed hx (hread f hf)
      have hminted : ((flattenSteps mint (mapLane (columnAmount x) toLower tree)).map
          StepRow.id).Nodup := by
        rw [map_id_flattenSteps]
        exact hids.of_append_right
      obtain ⟨depth, hnest⟩ := nestSteps_flattenSteps hminted
      refine ⟨depth, fun fuel versionIDs result hfuel hmem hresult => ?_⟩
      have hperm := (read_perm hcleared hmem hresult).map (StepRow.map Numeric.text Uuid.text)
      rw [← flattenSteps_map, hshown] at hperm
      have hrows : ((showRows result).filter fun r => r.1 = versionID).map Prod.snd =
          ((result.filter fun r => r.1 = versionID).map Prod.snd).map
            (StepRow.map Numeric.text Uuid.text) := by
        rw [showRows, List.filter_map, List.map_map, List.map_map]
        rfl
      rw [← hrows] at hperm
      obtain ⟨views, hviews, hsame⟩ := hnest fuel _ hfuel hperm
      refine ⟨views, ?_, hsame⟩
      rw [readPolicyTrees, ← hviews]
      exact List.mem_map_of_mem hmem
    · cases hok

end

def sampleReaders : TextReaders where
  newFromString s := if s = "0" then some ⟨0, 0⟩ else none
  uuidParse s := if toLower s = Uuid.text 10 then some 10 else none
  numericIn s := if s = "0" then some (.hundredths 0) else none
  uuidIn s := if toLower s = Uuid.text 10 then some 10 else none

theorem sampleReaders_agree : sampleReaders.Agree where
  amount := by
    intro s d v hd _ hv
    simp only [sampleReaders] at hd hv
    split at hd
    · rename_i hs
      rw [if_pos hs] at hv
      cases hd
      cases hv
      rfl
    · cases hd
  person := by
    intro s u hu _
    exact hu

def typedTree : List StepInput :=
  [{ kind := .approval, workflowRoleKey := some "checker", allowDelegation := true,
     delegateUserID := some "00000000-0000-0000-0000-00000000000A" },
   { kind := .condition, condOp := some .ge, condAmount := some "0",
     thenLane := [{ kind := .approval }, { kind := .autoapprove }],
     elseLane := [{ kind := .autoapprove }] }]

theorem tree_survives_storage_sample :
    ∃ stored, insertPolicySteps (StepInput.castRow sampleReaders) oneMember [] 7
        (flattenSteps (BitVec.ofNat 128) typedTree) = .ok stored ∧
      (stored.map slot).Nodup ∧
      ∃ depth, ∀ fuel versionIDs result, depth ≤ fuel → (7 : Uuid) ∈ versionIDs →
        ReadAs stored versionIDs result →
        ∃ views, (7, some views) ∈ readPolicyTrees fuel versionIDs (showRows result) ∧
          readLane views = mapLane (columnAmount sampleReaders) toLower typedTree := by
  obtain ⟨haccepted, -, hread⟩ := @tree_survives_storage sampleReaders oneMember
    (BitVec.ofNat 128) [] 7 typedTree sampleReaders_agree (by decide +kernel) (by decide +kernel)
    List.nodup_nil (fun _ h => absurd h List.not_mem_nil)
  obtain ⟨stored, hok⟩ := haccepted.mpr (by decide +kernel)
  exact ⟨stored, hok, hread stored hok⟩

def zeroAmount : List StepInput :=
  [{ kind := .condition, condOp := some .ge, condAmount := some "0" }]

theorem amount_scale_is_canonical : StepInput.validateTree sampleReaders zeroAmount = .ok () ∧
    ∃ stored, insertPolicySteps (StepInput.castRow sampleReaders) oneMember [] 7
        (flattenSteps (BitVec.ofNat 128) zeroAmount) = .ok stored ∧ ReadAs stored [7] stored ∧
      ∃ views, readPolicyTrees 2 [7] (showRows stored) = [(7, some views)] ∧
        readLane views ≠ zeroAmount := by
  refine ⟨by decide +kernel, _, rfl, ⟨List.Perm.refl _, List.pairwise_singleton _ _⟩, _, rfl, ?_⟩
  intro hsame
  have hamount := congrArg (fun tree : List StepInput => tree.map StepOf.condAmount) hsame
  exact absurd hamount (by decide +kernel)

end InvoiceOs.Approval
