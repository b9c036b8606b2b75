import InvoiceOs.Audit.CursorText
import InvoiceOs.Audit.OneState

/-! Following the cursor from page to page while rows are appended: every matching row of the
first read comes out once, in the page's order. -/

namespace InvoiceOs.Audit

open Lib

/-! ### The position between two pages -/

/-- What the page statement binds for a decoded position: microseconds and the id. -/
def Cursor.ofPosition (p : Timestamp × ℤ) : Cursor where
  createdAt := (p.1.instant / 1000).toNat
  id := p.2.toNat

def carried (shown : ℕ → Timestamp) (at_ : Cursor) : Except CursorErr Cursor :=
  (decodeCursor (encodeCursor (shown at_.createdAt) at_.id)).map Cursor.ofPosition

/-- The driver shows the row's microsecond in a four-digit year and a zone of whole minutes. -/
structure Readable (shown : ℕ → Timestamp) (r : Row) : Prop where
  valid : (shown r.createdAt).Valid
  instant : (shown r.createdAt).instant = r.createdAt * 1000
  year : 0 ≤ (shown r.createdAt).year ∧ (shown r.createdAt).year ≤ 9999
  zone : Timestamp.WholeMinutes (shown r.createdAt).offset
  id : IsInt64 r.id

def Row.position (r : Row) : Cursor := { createdAt := r.createdAt, id := r.id }

def Before (a b : Row) : Prop := past (some a.position) b = true

/-- The reads of one client from a page to the last, the `n`-th of them on the `n`-th snapshots. -/
inductive Walk (x : Externals) (v : View) (subject guc : String) (f : Filter)
    (shown : ℕ → Timestamp) (s : ℕ → Snapshots) : ℕ → Option Cursor → List Response → Prop
  | last {n c out} (hread : listAcross x v (s n) subject guc { f with cursor := c } = .ok out)
      (hlast : out.page.hasMore = false) : Walk x v subject guc f shown s n c [out]
  | next {n c out at_ c' outs}
      (hread : listAcross x v (s n) subject guc { f with cursor := c } = .ok out)
      (hmore : out.page.hasMore = true) (hnext : out.page.nextCursor = some at_)
      (hcarried : carried shown at_ = .ok c')
      (hrest : Walk x v subject guc f shown s (n + 1) (some c') outs) :
      Walk x v subject guc f shown s n c (out :: outs)

theorem Readable.carried {shown : ℕ → Timestamp} {r : Row} (h : Readable shown r) :
    carried shown r.position = .ok r.position := by
  have hread := (decodeCursor_encodeCursor_iff h.valid h.year h.id).mpr h.zone
  have hinstant : ((r.createdAt : ℤ) * 1000 / 1000).toNat = r.createdAt := by omega
  unfold Audit.carried
  dsimp only [Row.position]
  rw [hread]
  simp only [Except.map, Cursor.ofPosition, h.instant, hinstant, Int.toNat_natCast]

/-! ### The order of the page -/

theorem before_iff {a b : Row} :
    Before a b ↔ b.createdAt < a.createdAt ∨ b.createdAt = a.createdAt ∧ b.id < a.id := by
  unfold Before past Row.position
  simp

theorem past_trans {c : Option Cursor} {a b : Row} (ha : past c a = true) (hab : Before a b) :
    past c b = true := by
  cases c with
  | none => rfl
  | some c =>
    rw [before_iff] at hab
    simp only [past, Option.all_some, decide_eq_true_eq] at ha ⊢
    omega

theorem before_of_pageOrder {a b : Row} (hid : a.id ≠ b.id) (h : pageOrder a b = true) :
    Before a b := by
  rw [before_iff]
  simp only [pageOrder, thenBy, descending, comparing, Bool.and_eq_true, Bool.or_eq_true,
    Bool.not_eq_true', decide_eq_true_eq, decide_eq_false_iff_not] at h
  omega

theorem pageRows_before (x : Externals) (t : SearchTargets) (f : Filter) (l : Log) :
    (pageRows x t f l).Pairwise Before := by
  have hperm := List.mergeSort_perm (l.rows.filter fun r => keeps x t f r && past f.cursor r) pageOrder
  have hids : ((l.rows.filter fun r => keeps x t f r && past f.cursor r).mergeSort pageOrder).Pairwise
      fun a b => a.id ≠ b.id := by
    have hnodup : ((l.rows.filter fun r => keeps x t f r && past f.cursor r).map Row.id).Nodup :=
      l.unique.sublist (List.filter_sublist.map _)
    exact List.pairwise_map.mp ((hperm.map Row.id).nodup_iff.mpr hnodup)
  have hsorted := @List.pairwise_mergeSort _ pageOrder isOrder_page.trans isOrder_page.total
    (l.rows.filter fun r => keeps x t f r && past f.cursor r)
  exact (hids.and hsorted).imp fun h => before_of_pageOrder h.1 h.2

/-! ### One page -/

section
variable {x : Externals} {v : View} {subject guc : String} {f : Filter} {shown : ℕ → Timestamp}

theorem listAcross_page {s : Snapshots} {scope : CallerScope}
    (hcaller : callerScope x v subject guc = .ok scope) {out : Response}
    (h : listAcross x v s subject guc f = .ok out) :
    out.page = (pageOf f.limit ((pageRows x (resolveSearchTargets x v f.q)
      { f with scope := scope } s.page).take (f.limit.toNat + 1))).2 := by
  obtain ⟨scope', hscope, h⟩ := bind_eq_ok.mp h
  obtain rfl := Except.ok.inj (hcaller.symm.trans hscope)
  obtain ⟨read, hread, h⟩ := bind_eq_ok.mp h
  have hpage : out.page = read.page := by
    split at h
    · obtain ⟨empty, -, h⟩ := bind_eq_ok.mp h
      obtain rfl := Except.ok.inj h
      rfl
    · obtain rfl := Except.ok.inj h
      rfl
  rw [hpage]
  unfold queryAcross at hread
  obtain ⟨-, hread⟩ := check_eq_ok.mp hread
  obtain ⟨where_, hwhere, hread⟩ := bind_eq_ok.mp hread
  obtain ⟨rows, hrows, hread⟩ := bind_eq_ok.mp hread
  obtain ⟨event, -, hread⟩ := bind_eq_ok.mp hread
  obtain ⟨actor, -, hread⟩ := bind_eq_ok.mp hread
  obtain ⟨company, -, hread⟩ := bind_eq_ok.mp hread
  obtain ⟨counted, -, hread⟩ := bind_eq_ok.mp hread
  obtain rfl := Except.ok.inj hread
  obtain ⟨-, -, rfl⟩ := select_eq_ok.mp ⟨where_, hwhere, hrows⟩
  rfl

structure PageOf (x : Externals) (v : View) (subject guc : String) (f : Filter) (s : Snapshots)
    (c : Option Cursor) (out : Response) (page rest : List Row) : Prop where
  before : (page ++ rest).Pairwise Before
  rows : ∀ r, r ∈ page ++ rest ↔
    r ∈ s.page.rows ∧ matching x v subject guc f r = true ∧ past c r = true
  events : out.events = page.map fun r => labelEvent v (eventOf v r)
  hasMore : out.page.hasMore = true ↔ rest ≠ []
  nextCursor : out.page.hasMore = true → ∃ r, page.getLast? = some r ∧
    out.page.nextCursor = some r.position

theorem listAcross_pageOf (hx : ReadsUuids x) {s : Snapshots} {c : Option Cursor} {out : Response}
    (h : listAcross x v s subject guc { f with cursor := c } = .ok out) :
    ∃ page rest, PageOf x v subject guc f s c out page rest := by
  obtain ⟨scope, hanswered, hnumbers⟩ := listAcross_ok hx h
  have hinfo := listAcross_page hanswered.caller h
  have hkeep : ∀ r, keeps x (resolveSearchTargets x v f.q)
      { f with cursor := c, scope := scope } r = matching x v subject guc f r := by
    intro r
    exact (hanswered.matching_eq f r).symm
  have hevents := hnumbers.events
  have hmore := hnumbers.hasMore
  have hlimit : 0 < f.limit.toNat := by
    have := hanswered.limit
    dsimp only at this
    omega
  have hbefore := pageRows_before x (resolveSearchTargets x v f.q)
    { f with cursor := c, scope := scope } s.page
  have hmem : ∀ r, r ∈ pageRows x (resolveSearchTargets x v f.q)
      { f with cursor := c, scope := scope } s.page ↔
        r ∈ s.page.rows ∧ matching x v subject guc f r = true ∧ past c r = true := by
    intro r
    rw [mem_pageRows, hkeep]
  dsimp only at hevents hmore hinfo
  generalize pageRows x (resolveSearchTargets x v f.q) { f with cursor := c, scope := scope }
    s.page = rows at hevents hmore hinfo hbefore hmem
  refine ⟨rows.take f.limit.toNat, rows.drop f.limit.toNat, ?_, ?_, hevents, ?_, fun hyes => ?_⟩
  · rw [List.take_append_drop]
    exact hbefore
  · rw [List.take_append_drop]
    exact hmem
  · rw [hmore, ne_eq, List.drop_eq_nil_iff, not_le]
  · have hlong := hmore.mp hyes
    have hne : rows.take f.limit.toNat ≠ [] := by
      intro hnil
      have hlength := congrArg List.length hnil
      rw [List.length_take, List.length_nil] at hlength
      omega
    have htake : (rows.take (f.limit.toNat + 1)).take f.limit.toNat = rows.take f.limit.toNat := by
      rw [List.take_take, Nat.min_eq_left (Nat.le_succ _)]
    refine ⟨_, List.getLast?_eq_some_getLast hne, ?_⟩
    rw [hinfo, pageOf, if_pos (by rw [List.length_take]; omega)]
    dsimp only
    rw [htake, List.getLast?_eq_some_getLast hne]
    rfl

theorem PageOf.hasMore_iff {s : Snapshots} {c : Option Cursor} {out : Response} {page rest : List Row}
    (h : PageOf x v subject guc f s c out page rest) : out.page.hasMore = true ↔
      ∃ r ∈ s.page.rows, matching x v subject guc f r = true ∧
        Follows { f with cursor := c } out r := by
  have hfollows : ∀ r, Follows { f with cursor := c } out r ↔
      past c r = true ∧ ∀ r' ∈ page, Before r' r := by
    intro r
    refine and_congr_right fun _ => ⟨fun hall r' hr' => ?_, fun hall e he id hid => ?_⟩
    · refine hall (labelEvent v (eventOf v r')) ?_ r'.id rfl
      rw [h.events]
      exact List.mem_map_of_mem hr'
    · rw [h.events] at he
      obtain ⟨r', hr', rfl⟩ := List.mem_map.mp he
      have hsame : digits r'.id = digits id := congrArg String.toList hid
      obtain rfl := digits_inj hsame
      exact hall r' hr'
  rw [h.hasMore]
  constructor
  · intro hne
    obtain ⟨r, hr⟩ := List.exists_mem_of_ne_nil rest hne
    obtain ⟨hmem, hmatch, hpast⟩ := (h.rows r).mp (List.mem_append_right _ hr)
    exact ⟨r, hmem, hmatch, (hfollows r).mpr
      ⟨hpast, fun r' hr' => (List.pairwise_append.mp h.before).2.2 r' hr' r hr⟩⟩
  · rintro ⟨r, hmem, hmatch, hfollow⟩ rfl
    obtain ⟨hpast, hall⟩ := (hfollows r).mp hfollow
    have hr := (h.rows r).mpr ⟨hmem, hmatch, hpast⟩
    rw [List.append_nil] at hr
    have hself : past (some r.position) r = true := hall r hr
    rw [Row.position, past_self] at hself
    cases hself

theorem PageOf.upto_last {s : Snapshots} {c : Option Cursor} {out : Response} {page rest : List Row}
    (h : PageOf x v subject guc f s c out page rest) {r₀ : Row} (hlast : page.getLast? = some r₀) :
    ∀ r ∈ page, r = r₀ ∨ Before r r₀ := by
  obtain ⟨front, rfl⟩ := List.getLast?_eq_some_iff.mp hlast
  intro r hr
  obtain hr | hr := List.mem_append.mp hr
  · have hpage := (List.pairwise_append.mp h.before).1
    exact .inr ((List.pairwise_append.mp hpage).2.2 r hr r₀ List.mem_cons_self)
  · exact .inl (List.mem_singleton.mp hr)

/-! ### All pages -/

variable {s : ℕ → Snapshots}

structure Shows (x : Externals) (v : View) (subject guc : String) (f : Filter) (s : ℕ → Snapshots)
    (n : ℕ) (c : Option Cursor) (outs : List Response) (rows : List Row) : Prop where
  events : outs.flatMap Response.events = rows.map fun r => labelEvent v (eventOf v r)
  before : rows.Pairwise Before
  sound : ∀ r ∈ rows, matching x v subject guc f r = true ∧ past c r = true ∧
    ∃ m < n + outs.length, r ∈ (s m).page.rows
  complete : ∀ r ∈ (s n).page.rows, matching x v subject guc f r = true → past c r = true → r ∈ rows

theorem Walk.shows (hx : ReadsUuids x) (hgrow : ∀ n, (s n).page.rows <+: (s (n + 1)).page.rows)
    (hread : ∀ n, ∀ r ∈ (s n).page.rows, Readable shown r) {n : ℕ} {c : Option Cursor}
    {outs : List Response} (h : Walk x v subject guc f shown s n c outs) :
    ∃ rows, Shows x v subject guc f s n c outs rows := by
  induction h with
  | @last n c out hpage hlast =>
    obtain ⟨page, rest, hof⟩ := listAcross_pageOf hx hpage
    have hnone : rest = [] := by
      by_contra hne
      rw [hof.hasMore.mpr hne] at hlast
      cases hlast
    subst hnone
    have hrows := hof.rows
    have hbefore := hof.before
    rw [List.append_nil] at hrows hbefore
    refine ⟨page, ?_, hbefore, fun r hr => ?_, fun r hr hmatch hpast =>
      (hrows r).mpr ⟨hr, hmatch, hpast⟩⟩
    · rw [List.flatMap_singleton, hof.events]
    · obtain ⟨hmem, hmatch, hpast⟩ := (hrows r).mp hr
      exact ⟨hmatch, hpast, n, Nat.lt_succ_self n, hmem⟩
  | @next n c out at_ c' outs hpage hmore hnext hcarried _ ih =>
    obtain ⟨page, rest, hof⟩ := listAcross_pageOf hx hpage
    obtain ⟨rows, hshows⟩ := ih
    obtain ⟨r₀, hlast, hposition⟩ := hof.nextCursor hmore
    have hr₀ : r₀ ∈ page := List.mem_of_getLast? hlast
    obtain ⟨hr₀mem, -, hr₀past⟩ := (hof.rows r₀).mp (List.mem_append_left _ hr₀)
    have hc' : c' = r₀.position := by
      obtain rfl := Option.some.inj (hnext.symm.trans hposition)
      exact (Except.ok.inj (((hread n r₀ hr₀mem).carried).symm.trans hcarried)).symm
    subst hc'
    have hbehind : ∀ r ∈ rows, ∀ a ∈ page, Before a r := by
      intro r hr a ha
      obtain ⟨-, hpast, -⟩ := hshows.sound r hr
      obtain rfl | hbefore := hof.upto_last hlast a ha
      · exact hpast
      · exact past_trans (c := some a.position) hbefore hpast
    refine ⟨page ++ rows, ?_, ?_, fun r hr => ?_, fun r hr hmatch hpast => ?_⟩
    · rw [List.flatMap_cons, hof.events, hshows.events, List.map_append]
    · exact List.pairwise_append.mpr ⟨(List.pairwise_append.mp hof.before).1, hshows.before,
        fun a ha r hr => hbehind r hr a ha⟩
    · obtain hr | hr := List.mem_append.mp hr
      · obtain ⟨hmem, hmatch, hpast⟩ := (hof.rows r).mp (List.mem_append_left _ hr)
        exact ⟨hmatch, hpast, n, by rw [List.length_cons]; omega, hmem⟩
      · obtain ⟨hmatch, hpast, m, hm, hmem⟩ := hshows.sound r hr
        have hm' : m < n + (out :: outs).length := by
          rw [List.length_cons]
          omega
        exact ⟨hmatch, past_trans hr₀past hpast, m, hm', hmem⟩
    · obtain hr' | hr' := List.mem_append.mp ((hof.rows r).mpr ⟨hr, hmatch, hpast⟩)
      · exact List.mem_append_left _ hr'
      · -- left over by this page, so behind its last row
        have hlater : Before r₀ r := (List.pairwise_append.mp hof.before).2.2 r₀ hr₀ r hr'
        exact List.mem_append_right _
          (hshows.complete r ((hgrow n).subset hr) hmatch hlater)

theorem walk_exists (hx : ReadsUuids x) (hread : ∀ n, ∀ r ∈ (s n).page.rows, Readable shown r)
    {scope : CallerScope} (hanswered : Answered x v subject guc f scope) :
    ∃ outs, Walk x v subject guc f shown s 0 none outs := by
  have hstep : ∀ n c, (∀ r : Row, past c r = true →
      ∃ outs, Walk x v subject guc f shown s (n + 1) (some r.position) outs) →
      ∃ outs, Walk x v subject guc f shown s n c outs := by
    intro n c hrest
    have hanswered' : Answered x v subject guc { f with cursor := c } scope :=
      ⟨hanswered.caller, hanswered.limit, hanswered.kind, hanswered.casts⟩
    obtain ⟨out, hout⟩ := listAcross_answers (s := s n) hanswered'
    obtain ⟨page, rest, hof⟩ := listAcross_pageOf hx hout
    by_cases hmore : out.page.hasMore = true
    · obtain ⟨r₀, hlast, hnext⟩ := hof.nextCursor hmore
      obtain ⟨hmem, -, hpast⟩ :=
        (hof.rows r₀).mp (List.mem_append_left _ (List.mem_of_getLast? hlast))
      obtain ⟨outs, houts⟩ := hrest r₀ hpast
      exact ⟨_, .next hout hmore hnext (hread n r₀ hmem).carried houts⟩
    · exact ⟨_, .last hout (Bool.not_eq_true _ ▸ hmore)⟩
  have hbelow : ∀ k i n, ∃ outs, Walk x v subject guc f shown s n (some ⟨k, i⟩) outs := by
    intro k
    induction k using Nat.strong_induction_on with
    | h k ihk =>
      intro i
      induction i using Nat.strong_induction_on with
      | h i ihi =>
        intro n
        refine hstep n _ fun r hpast => ?_
        simp only [past, Option.all_some, decide_eq_true_eq] at hpast
        obtain hlt | ⟨heq, hlt⟩ := hpast
        · exact ihk r.createdAt hlt r.id (n + 1)
        · rw [Row.position, heq]
          exact ihi r.id hlt (n + 1)
  exact hstep 0 none fun r _ => hbelow r.createdAt r.id 1

theorem hasMore_of_read (hx : ReadsUuids x) {s : Snapshots} {c : Option Cursor} {out : Response}
    (h : listAcross x v s subject guc { f with cursor := c } = .ok out) : out.page.hasMore = true ↔
      ∃ r ∈ s.page.rows, matching x v subject guc f r = true ∧
        Follows { f with cursor := c } out r := by
  obtain ⟨page, rest, hof⟩ := listAcross_pageOf hx h
  exact hof.hasMore_iff

theorem total_of_read (hx : ReadsUuids x) {s : Snapshots} {c : Option Cursor} {out : Response}
    (h : listAcross x v s subject guc { f with cursor := c } = .ok out) :
    out.total = s.count.rows.countP (matching x v subject guc f) := by
  obtain ⟨scope, hanswered, hnumbers⟩ := listAcross_ok hx h
  rw [hnumbers.total]
  exact List.countP_congr fun r _ => by rw [hanswered.matching_eq]; rfl

end

/-- Where the driver shows the rows in zones of whole minutes, following the cursor shows every
matching row of the first read once and in strict order, whatever is appended meanwhile. -/
theorem paging_complete (x : Externals) (v : View) (subject guc : String) (f : Filter)
    (shown : ℕ → Timestamp) (s : ℕ → Snapshots) (hx : ReadsUuids x)
    (hgrow : ∀ n, (s n).page.rows <+: (s (n + 1)).page.rows)
    (hread : ∀ n, ∀ r ∈ (s n).page.rows, Readable shown r) :
    (∀ outs, Walk x v subject guc f shown s 0 none outs →
      ∃ rows : List Row, outs.flatMap Response.events = rows.map (fun r => labelEvent v (eventOf v r)) ∧
        rows.Pairwise Before ∧
        (∀ r ∈ rows, matching x v subject guc f r = true ∧
          ∃ m < outs.length, r ∈ (s m).page.rows) ∧
        ∀ r ∈ (s 0).page.rows, matching x v subject guc f r = true → rows.count r = 1) ∧
    (∀ scope, Answered x v subject guc f scope → ∃ outs, Walk x v subject guc f shown s 0 none outs) ∧
    (∀ now c out, listAcross x v now subject guc { f with cursor := c } = .ok out →
      (out.page.hasMore = true ↔ ∃ r ∈ now.page.rows, matching x v subject guc f r = true ∧
        Follows { f with cursor := c } out r) ∧
      ∀ c' out', listAcross x v now subject guc { f with cursor := c' } = .ok out' →
        out'.total = out.total) ∧
    (∀ (t : Timestamp) (n : ℤ), t.Valid → 0 ≤ t.year ∧ t.year ≤ 9999 → IsInt64 n →
      (decodeCursor (encodeCursor t n) = .ok (t, n) ↔ Timestamp.WholeMinutes t.offset)) ∧
    ∀ text t n, decodeCursor text = .ok (t, n) → IsInt64 n ∧ ∃ raw a b,
      Base64.decode text = some raw ∧ raw.map Char.ofNat = a ++ '|' :: b ∧ '|' ∉ a ∧ '|' ∉ b ∧
      Timestamp.parse a = some t ∧ parseInt b = some n := by
  refine ⟨fun outs hwalk => ?_, fun scope hanswered => walk_exists hx hread hanswered,
    fun now c out hout => ⟨hasMore_of_read hx hout, fun c' out' hout' => ?_⟩,
    fun t n hvalid hyear hn => decodeCursor_encodeCursor_iff hvalid hyear hn,
    fun text t n hdecode => ?_⟩
  · obtain ⟨rows, hshows⟩ := hwalk.shows hx hgrow hread
    have hnodup : rows.Nodup := hshows.before.imp fun {a b} hab heq => by
      subst heq
      rw [before_iff] at hab
      omega
    refine ⟨rows, hshows.events, hshows.before, fun r hr => ?_, fun r hr hmatch => ?_⟩
    · obtain ⟨hmatch, -, m, hm, hmem⟩ := hshows.sound r hr
      exact ⟨hmatch, m, by omega, hmem⟩
    · exact List.count_eq_one_of_mem hnodup (hshows.complete r hr hmatch rfl)
  · rw [total_of_read hx hout, total_of_read hx hout']
  · obtain ⟨raw, a, b, hraw, htext, ha, hb, ht, hn⟩ := decodeCursor_ok.mp hdecode
    exact ⟨isInt64_of_parseInt hn, raw, a, b, hraw, htext, ha, hb, ht, hn⟩

def firstMinute (k : ℕ) : Timestamp where
  year := 0
  month := 1
  day := 1
  hour := 0
  minute := 0
  second := k / 1000000
  nano := k % 1000000 * 1000
  offset := 0

def appendedSnapshots (n : ℕ) : Snapshots := Moments.snapshots ⟨n, n, n, n, n, n, by omega⟩ appended

theorem paging_complete_appended :
    (∀ n, (appendedSnapshots n).page.rows <+: (appendedSnapshots (n + 1)).page.rows) ∧
      ∃ outs, Walk plainExternals clerkView "worker" "*" { limit := 1 } firstMinute
        appendedSnapshots 0 none outs := by
  have hread : ∀ n, ∀ r ∈ (appendedSnapshots n).page.rows, Readable firstMinute r := by
    intro n r hr
    have hmem : r = clientRow ∨ r = otherRow := by
      cases n with
      | zero => exact .inl (List.mem_singleton.mp hr)
      | succ n => simpa [appendedSnapshots, Moments.snapshots, appended] using hr
    obtain rfl | rfl := hmem
    · exact ⟨by decide, by decide, by decide, by decide, by decide⟩
    · exact ⟨by decide, by decide, by decide, by decide, by decide⟩
  have hanswered : Answered plainExternals clerkView "worker" "*" { limit := 1 }
      { admin := true, self := "worker" } := ⟨rfl, by decide, rfl, rfl⟩
  exact ⟨appended_grows, (paging_complete plainExternals clerkView "worker" "*" { limit := 1 }
    firstMinute appendedSnapshots plain_readsUuids appended_grows hread).2.1 _ hanswered⟩

def localMeanNoon : Timestamp where
  year := 1900
  month := 1
  day := 1
  hour := 12
  minute := 0
  second := 0
  nano := 0
  offset := 815

theorem zone_seconds_lost :
    (localMeanNoon.Valid ∧ ∃ t n, decodeCursor (encodeCursor localMeanNoon 7) = .ok (t, n) ∧
      t.instant ≠ localMeanNoon.instant) ∧
    decodeCursor (encodeCursor { firstMinute 0 with year := 10000 } 7) = .error .timestamp := by
  refine ⟨⟨by decide, { localMeanNoon with offset := 780 }, 7, ?_, ?_⟩, ?_⟩
  · decide +kernel
  · decide +kernel
  · decide +kernel

end InvoiceOs.Audit
