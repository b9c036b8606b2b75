import InvoiceOs.Deletion.Exclusive

/-! A purge that started ends, in any later run that meets no error, with the rows gone; and the
whole of what holds between cancels and purges. -/

namespace InvoiceOs.Deletion

open Lib Approval Tenancy

section
variable {hash toLower : String → String} {σ : Store} {d : ℕ}

theorem listKeys_eq_nil {objects : List String} : listKeys objects = [] ↔ objects = [] := by
  unfold listKeys
  rw [List.take_eq_nil_iff]
  constructor
  · intro h
    have hlength := List.length_insertionSort (· ≤ ·) objects
    rw [h.resolve_left (by decide)] at hlength
    exact List.length_eq_zero_iff.mp hlength.symm
  · rintro rfl
    exact .inr rfl

theorem mem_of_mem_listKeys {objects : List String} {key : String} (h : key ∈ listKeys objects) :
    key ∈ objects :=
  (List.mem_insertionSort (· ≤ ·)).mp (List.mem_of_mem_take h)

/-! ### The files -/

def fileActs (k : ℕ) : List Act :=
  (List.replicate k [Act.listObjects, .deleteMany]).flatten ++ [.listObjects]

theorem readPage_cases (d queued total : ℕ) {pages : List String}
    (hpages : ∀ k ∈ pages, k ∉ σ.objects) :
    σ.objects = [] ∧ readPage σ d queued pages total = .ok (.emptied d queued total) ∨
      listKeys σ.objects ≠ [] ∧
        readPage σ d queued pages total = .ok (.listed d queued (listKeys σ.objects) total) := by
  unfold readPage
  dsimp only
  by_cases hnil : listKeys σ.objects = []
  · rw [if_pos hnil]
    exact .inl ⟨listKeys_eq_nil.mp hnil, rfl⟩
  · have hnew : ¬ (listKeys σ.objects).any pages.contains := by
      intro hany
      obtain ⟨key, hkey, hpage⟩ := List.any_eq_true.mp hany
      exact hpages key (List.contains_iff_mem.mp hpage) (mem_of_mem_listKeys hkey)
    rw [if_neg hnil, if_neg hnew]
    exact .inr ⟨hnil, rfl⟩

variable (hash toLower) in
theorem files_run (d : ℕ) (session : Bool) (queued n : ℕ) (σ : Store)
    (hn : σ.objects.length ≤ n) (pages : List String) (total : ℕ) (hpages : ∀ k ∈ pages, k ∉ σ.objects) :
    ∃ k total' σ', runFrom (protocol hash toLower).alone
        (σ, .purge session (.files d queued pages total)) (fileActs k) =
          some (σ', .purge session (.emptied d queued total')) ∧
      σ'.tenant = σ.tenant ∧ σ'.house = σ.house ∧ σ'.objects = [] := by
  induction n generalizing σ pages total with
  | zero =>
    have hnil : σ.objects = [] := List.length_eq_zero_iff.mp (Nat.le_zero.mp hn)
    obtain ⟨-, hpage⟩ | ⟨hkeys, -⟩ := readPage_cases d queued total hpages
    · refine ⟨0, total, σ, runFrom_cons.mpr ⟨_, ?_, rfl⟩, rfl, rfl, hnil⟩
      change (nextPurge toLower σ session (.files d queued pages total) .listObjects) = _
      rw [nextPurge, hpage]
      rfl
    · exact absurd (listKeys_eq_nil.mpr hnil) hkeys
  | succ n ih =>
    obtain ⟨hnil, hpage⟩ | ⟨hkeys, hpage⟩ := readPage_cases d queued total hpages
    · refine ⟨0, total, σ, runFrom_cons.mpr ⟨_, ?_, rfl⟩, rfl, rfl, hnil⟩
      change (nextPurge toLower σ session (.files d queued pages total) .listObjects) = _
      rw [nextPurge, hpage]
      rfl
    · have hlisted : (protocol hash toLower).alone
          (σ, .purge session (.files d queued pages total)) .listObjects =
            some (σ, .purge session (.listed d queued (listKeys σ.objects) total)) := by
        change (nextPurge toLower σ session (.files d queued pages total) .listObjects) = _
        rw [nextPurge, hpage]
        rfl
      have hrest : (deleteMany σ d (listKeys σ.objects)).objects.length ≤ n := by
        obtain ⟨key, hkey⟩ := List.exists_mem_of_ne_nil _ hkeys
        have hshorter : (deleteMany σ d (listKeys σ.objects)).objects.length <
            σ.objects.length := by
          refine List.length_filter_lt_length_iff_exists.mpr ⟨key, mem_of_mem_listKeys hkey, ?_⟩
          simp [hkey]
        omega
      obtain ⟨k, total', σ', hrun, htenant, hhouse, hnone⟩ := ih _ hrest (listKeys σ.objects)
        (total + (listKeys σ.objects).length) fun key hkey hleft => by
          have htest := (List.mem_filter.mp hleft).2
          simp [hkey] at htest
      refine ⟨k + 1, total', σ', ?_, htenant, hhouse, hnone⟩
      have hacts : fileActs (k + 1) = .listObjects :: .deleteMany :: fileActs k := by
        unfold fileActs
        rw [List.replicate_succ, List.flatten_cons]
        rfl
      rw [hacts]
      exact runFrom_cons.mpr ⟨_, hlisted, runFrom_cons.mpr ⟨_, rfl, hrun⟩⟩

/-! ### A whole run -/

variable (toLower) in
theorem eraseJobs_ok {userEmail : Uuid → Option String} (hread : ∀ u, (userEmail u).isSome)
    (ms : List (Uuid × String)) :
    ∃ jobs, ms.mapM (eraseJob toLower (some userEmail)) = .ok jobs := by
  induction ms with
  | nil => exact ⟨[], rfl⟩
  | cons m ms ih =>
    obtain ⟨jobs, hjobs⟩ := ih
    have hjob : ∃ job, eraseJob toLower (some userEmail) m = .ok job := by
      obtain ⟨got, hgot⟩ := Option.isSome_iff_exists.mp (hread m.1)
      unfold eraseJob
      dsimp only
      rw [hgot]
      dsimp only
      split
      · exact ⟨_, rfl⟩
      · split
        · exact ⟨_, rfl⟩
        · exact ⟨_, rfl⟩
    obtain ⟨job, hjob⟩ := hjob
    refine ⟨job :: jobs, ?_⟩
    rw [List.mapM_cons, hjob, hjobs]
    rfl

theorem rowAt_erase (h : RowAt σ (.underway d)) (now : ℕ) (jobs : List Erasure) :
    RowAt (commitErase σ now d jobs) (.underway d) := by
  obtain ⟨r, s, hr, hs, rfl⟩ := RowDue.schedule (.inr h)
  refine ⟨_, ?_, stage_started hs now⟩
  unfold commitErase
  dsimp only
  rw [hr, Option.map_some]

def purgeActs (userEmail : Uuid → Option String) (now again k : ℕ) : List Act :=
  [.tryLock, .begin now, .lockDue, .readMembers, .readAccounts (some userEmail), .commit] ++
    fileActs k ++ [.begin again, .lockDue, .commit, .finish]

variable (hash toLower) in
theorem purge_run (hrow : RowAt σ (.underway d)) (hhouse : σ.house = false)
    {userEmail : Uuid → Option String} (hread : ∀ u, (userEmail u).isSome) (now again : ℕ) :
    ∃ k σ', runFrom (protocol hash toLower).alone (σ, .idle) (purgeActs userEmail now again k) =
        some (σ', .idle) ∧
      σ'.tenant = none ∧ σ'.members = ∅ ∧ σ'.objects = [] ∧
        σ'.journal.head? = some (.returned true) := by
  obtain ⟨jobs, hjobs⟩ := eraseJobs_ok toLower hread (readMembers σ)
  obtain ⟨k, total, σ₁, hfiles, htenant, hhouse₁, hobjects⟩ := files_run hash toLower d true
    jobs.length _ (commitErase σ now d jobs) le_rfl [] 0 fun key hkey =>
      absurd hkey List.not_mem_nil
  have hrow₁ : RowAt σ₁ (.underway d) := (rowAt_erase hrow now jobs).frame htenant
  have hopen : runFrom (protocol hash toLower).alone (σ, .idle) [.tryLock, .begin now, .lockDue,
      .readMembers, .readAccounts (some userEmail), .commit] =
        some (commitErase σ now d jobs, .purge true (.files d jobs.length [] 0)) := by
    have hdue : (protocol hash toLower).alone (σ, .purge true (.erasing now)) .lockDue =
        some (σ, .purge true (.due now d)) := by
      change nextPurge toLower σ true (.erasing now) .lockDue = _
      rw [nextPurge, lockDue_of_underway hrow now]
    have hread' : (protocol hash toLower).alone
        (σ, .purge true (.members now d (readMembers σ))) (.readAccounts (some userEmail)) =
          some (σ, .purge true (.jobs now d jobs)) := by
      change nextPurge toLower σ true (.members now d (readMembers σ))
        (.readAccounts (some userEmail)) = _
      rw [nextPurge, hjobs]
      rfl
    exact runFrom_cons.mpr ⟨_, rfl, runFrom_cons.mpr ⟨_, rfl, runFrom_cons.mpr ⟨_, hdue,
      runFrom_cons.mpr ⟨_, rfl, runFrom_cons.mpr ⟨_, hread', rfl⟩⟩⟩⟩⟩
  have hpurge : ∃ σ₂, purgeTenant σ₁ { dueAt := d, members := jobs.length, objects := total } =
      .ok σ₂ := by
    obtain ⟨r, hr, -⟩ := hrow₁
    unfold purgeTenant
    rw [hhouse₁, hr]
    unfold commitErase
    dsimp only
    rw [hhouse]
    exact ⟨_, rfl⟩
  obtain ⟨σ₂, hpurge⟩ := hpurge
  have hclose : runFrom (protocol hash toLower).alone
      (σ₁, .purge true (.emptied d jobs.length total)) [.begin again, .lockDue, .commit, .finish] =
        some (record σ₂ (.returned true), .idle) := by
    have hdue : (protocol hash toLower).alone (σ₁, .purge true (.purging d jobs.length total again))
        .lockDue = some (σ₁, .purge true (.stillDue d jobs.length total d)) := by
      change nextPurge toLower σ₁ true (.purging d jobs.length total again) .lockDue = _
      rw [nextPurge, lockDue_of_underway hrow₁ again]
    have hcommit : (protocol hash toLower).alone
        (σ₁, .purge true (.stillDue d jobs.length total d)) .commit =
          some (σ₂, .purge true .purged) := by
      change nextPurge toLower σ₁ true (.stillDue d jobs.length total d) .commit = _
      rw [nextPurge, hpurge]
    exact runFrom_cons.mpr ⟨_, rfl, runFrom_cons.mpr ⟨_, hdue, runFrom_cons.mpr ⟨_, hcommit, rfl⟩⟩⟩
  refine ⟨k, record σ₂ (.returned true), ?_, ?_⟩
  · unfold purgeActs
    rw [runFrom_append]
    refine ⟨_, ?_, hclose⟩
    rw [runFrom_append]
    exact ⟨_, hopen, hfiles⟩
  · obtain rfl := purgeTenant_spec hpurge
    exact ⟨rfl, rfl, hobjects, rfl⟩

end

/-- Two schedules never sharing a due instant, in every interleaving with crashes and lost session
locks: a cancelled schedule's purge never started and did nothing; after a purge started no cancel
returns without an error, no run of the purge returns before the rows are gone, and any run on its
own that meets no error removes them; the rows go once; and the deletion a link cancelled is the
one it was minted for. -/
theorem cancel_purge_exclusive (hash toLower : String → String) (house : Bool) (name : String)
    (members : Table Uuid Member) (objects : List String) (steps : List (ℕ × Act))
    (w : World Store Task)
    (hrun : runFrom (protocol hash toLower).step (start house name members objects) steps = some w)
    (hdues : (dues w.store.journal).Nodup) :
    (∀ out token, .cancelled out token ∈ w.store.journal → ∀ e ∈ w.store.journal,
      e ≠ .started out.dueAt ∧ e.purgeOf ≠ some out.dueAt) ∧
    (∀ newer d older, w.store.journal = newer ++ .started d :: older →
      (∀ e ∈ newer, e.isCancel = false) ∧
      (∀ purged, .returned purged ∈ newer → w.store.tenant = none)) ∧
    (∀ d, .started d ∈ w.store.journal → w.store.tenant.isSome → (protocol hash toLower).Quiet w →
      ∀ n userEmail now again, (∀ u, (userEmail u).isSome) → ∃ k w',
        runFrom (protocol hash toLower).step w
          ((purgeActs userEmail now again k).map (n, ·)) = some w' ∧
        w'.store.tenant = none ∧ w'.store.members = ∅ ∧ w'.store.objects = [] ∧
        w'.store.journal.head? = some (.returned true)) ∧
    (w.store.staff = removals w.store.journal ∧ w.store.staff.length ≤ 1 ∧
      w.store.erasures.reverse = queuedJobs w.store.journal) ∧
    ∀ out token, .cancelled out (some token) ∈ w.store.journal →
      ∀ sched, .scheduled sched ∈ w.store.journal → ∀ l ∈ sched.links, l.token = token →
        sched.dueAt = out.dueAt := by
  have hsound := sound_run hrun
  obtain ⟨g, hhistory, hshows⟩ := hsound.history
  refine ⟨fun out token hout e he => hhistory.exclusive hdues hout he,
    fun newer d older hjournal => ?_, fun d hd hsome hquiet n userEmail now again hread => ?_,
    ⟨hsound.staff, ?_, hsound.erasures⟩, hsound.linked.own⟩
  · have hafter : History (newer ++ .started d :: older) g := hjournal ▸ hhistory
    obtain ⟨hcancels, hreturns⟩ := hafter.after
    refine ⟨hcancels, fun purged hmem => ?_⟩
    obtain rfl := hreturns purged hmem
    have hd : .started d ∈ w.store.journal :=
      hjournal ▸ List.mem_append_right _ List.mem_cons_self
    obtain ⟨-, hrow⟩ | ⟨-, hgone⟩ := hsound.begun hd
    · cases hrow.shows hshows
    · exact hgone
  · obtain ⟨hunderway, hrow⟩ | ⟨-, hgone⟩ := hsound.begun hd
    · have hhouse : w.store.house = false :=
        hsound.house (List.ne_nil_of_mem (hunderway.due rfl))
      obtain ⟨k, σ', hacts, hrows⟩ := purge_run hash toLower hrow hhouse hread now again
      have hsolo : (protocol hash toLower).Solo w n := fun m _ => hquiet m
      have hidle : (protocol hash toLower).task w n = .idle := hquiet n
      rw [← hidle] at hacts
      obtain ⟨w', hw', hpair⟩ := hsolo.run hacts
      obtain ⟨rfl, -⟩ := Prod.mk.inj hpair
      exact ⟨k, w', hw', hrows⟩
    · rw [hgone] at hsome
      cases hsome
  · rw [hsound.staff]
    obtain hnone | ⟨row, hrow, -⟩ := hhistory.removals
    · rw [hnone]
      exact Nat.zero_le 1
    · rw [hrow]
      exact le_rfl

def smallOffice : Table Uuid Member :=
  Table.ofList [(1, { role := .admin, displayName := some "Ada Eze" }),
    (2, { role := .admin, email := some "bo@x" }), (3, { role := .preparer })]

def tokenOf (c : Char) : String := String.ofList (List.replicate 43 c)

def scheduleActs (now : ℕ) (tokens : List String) : List Act :=
  [.schedule ⟨1, "Eze & Co"⟩ now, .readName, .mark, .issueLinks tokens, .commit]

def lateCancel : List (ℕ × Act) :=
  (scheduleActs 5 [tokenOf 'A']).map (0, ·) ++ [.tryLock, .begin 6, .lockDue].map (1, ·) ++
    [Act.cancel ⟨2, some (tokenOf 'A')⟩ 9, .selectForUpdate, .checkLink, .clear, .readAdmins,
      .commit].map (2, ·) ++
    (scheduleActs 20 [tokenOf 'B']).map (0, ·) ++
    ((purgeActs (fun _ => some "") (20 + dueAfter) 0 0).take 6 ++ [Act.listObjects, .abort]).map
      (3, ·) ++
    [Act.cancel ⟨2, some (tokenOf 'B')⟩ 30, .selectForUpdate, .checkLink, .clear].map (2, ·) ++
    (purgeActs (fun _ => some "") 7 8 1).map (4, ·)

theorem cancel_purge_exclusive_lateCancel : ∃ w,
    runFrom (protocol id id).step (start false "Eze & Co" smallOffice ["a", "b"]) lateCancel =
      some w ∧ w.store.staff.length ≤ 1 ∧
    ∀ out token, .cancelled out token ∈ w.store.journal → ∀ e ∈ w.store.journal,
      e ≠ .started out.dueAt ∧ e.purgeOf ≠ some out.dueAt := by
  have hran : ((runFrom (protocol id id).step (start false "Eze & Co" smallOffice ["a", "b"])
      lateCancel).map fun w => decide (dues w.store.journal).Nodup) = some true := by
    decide +kernel
  obtain ⟨w, hrun, hdues⟩ := Option.map_eq_some_iff.mp hran
  obtain ⟨hexclusive, -, -, ⟨-, honce, -⟩, -⟩ := cancel_purge_exclusive id id false "Eze & Co"
    smallOffice ["a", "b"] lateCancel w hrun (of_decide_eq_true hdues)
  exact ⟨w, hrun, honce, hexclusive⟩

example : (runFrom (protocol id id).step (start false "Eze & Co" smallOffice ["a", "b"])
    lateCancel).map (fun w => (w.store.staff, w.store.erasures.length, w.store.objects)) =
      some ([⟨20 + dueAfter, 3, 2⟩], 6, []) := by
  decide +kernel

end InvoiceOs.Deletion
