import Skywing.L4App.TagSteps
import Skywing.L4App.CutOff

/-!
# Subscriptions are not lost

A tag passed to `subscribe` is to be pending, to travel with a pending
connection, or to be bound (`skywing_core/manager.cpp`).
`init_connections_for_pending_tags` takes a tag out of `pending_tags_` before
it knows that the connect was started, and drops it where it was not; a port
that is taken costs the connection its socket; a handshake that cannot be sent
takes the tags with it.

Results:
* `nothing_lost`: in a run in which none of that happens to a list with a
  subscribed tag, no subscription is lost.
* `tag_lost`: a connect that fails at once loses one.
-/
namespace Skywing.L4.Subscriptions

open L3 L1.Text
open L3.Manager (InitLoop Still addPending bindTags mem_bindTags Completes boundBy carried startConnection)
open CutOff (connected)
open GroupMembers (quietEnv machine initial_machine)

variable {V : Type}

/-! ## The property -/

/-- Subscribed to, not private, and not produced by this machine. -/
def wanted (m : Manager V) (tag : TagID) : Bool :=
  decide (tag ∈ m.subscribed) && marker tag != privateTagMarker && decide (tag ∉ m.selfSubCount)

/-- In the list of a pending connection that has its socket. -/
def Travels (m : Manager V) (tag : TagID) : Prop :=
  ∃ key info, m.pendingConns.lookup key = some info ∧ info.conn = true ∧ tag ∈ split info.tag nul 0

def NothingLost (m : Manager V) : Prop :=
  ∀ tag, wanted m tag = true → tag ∈ m.pendingTags ∨ Travels m tag ∨ tag ∈ m.tagToMachine

/-! ## The condition -/

/-- Each list with such a tag begins with a publish tag, its connect is in
progress, and its address is not taken when its turn comes. -/
def startsWell (env : Env) (w : TagID → Bool) : List (Σ _ : Str, Str) → Manager V → Bool
  | [], _ => true
  | e :: rest, m =>
    (!(split e.2 nul 0).any w ||
      (marker e.2 == publishTagMarker && decide (splitAddress e.1 ∉ m.pendingConns) &&
        match Manager.connectNonBlocking env e.1 with
        | .ok .unrecoverable => false
        | _ => true)) &&
    match m.startConnection env e with
    | .ok m' => startsWell env w rest m'
    | .error _ => true

/-- A tag that moves is neither empty nor contains the separator, and only a
publish tag is finalised at once. -/
def movesWell (env : Env) (m : Manager V) (tag : TagID) : Bool :=
  match m.route env tag with
  | .ok (.finalize _ _) => marker tag == publishTagMarker && decide (nul ∉ tag)
  | .ok (.connect _) => !tag.isEmpty && decide (nul ∉ tag)
  | _ => true

def initsWell (env : Env) (m : Manager V) : Bool :=
  m.pendingTags.all (fun tag => !wanted m tag || movesWell env m tag) &&
    match m.pendingTags.foldlM (Manager.initTag env) ⟨m, [], ∅⟩ with
    | .ok s => startsWell env (wanted m) (env.order s.toConn.entries) s.m
    | .error _ => true

/-- The handshake of a connection with a subscribed tag is sent. -/
def cond : Sys V → Label V → Bool
  | .running _ m, .init env => initsWell env m
  | .running (.conns (key :: _) _) m, .conn (.connected send) _ =>
    match m.pendingConns.lookup key with
    | some info => info.type != .subscription || !(split info.tag nul 0).any (wanted m) || send == .noError
    | none => true
  | _, _ => true

/-! ## The invariant -/

/-- In the list of a pending subscription. -/
def OnWay (m : Manager V) (tag : TagID) : Prop :=
  ∃ key info, m.pendingConns.lookup key = some info ∧ info.conn = true ∧ info.type = .subscription ∧
    tag ∈ split info.tag nul 0

def Inv (m : Manager V) : Prop :=
  ∀ tag, wanted m tag = true → tag ∈ m.pendingTags ∨ OnWay m tag ∨ tag ∈ m.tagToMachine

variable {m m₁ : Manager V} {env : Env}

theorem Inv.nothingLost (h : Inv m) : NothingLost m := by
  intro tag hw
  rcases h tag hw with hp | ⟨key, info, hl, hc, -, ht⟩ | hb
  · exact .inl hp
  · exact .inr (.inl ⟨key, info, hl, hc, ht⟩)
  · exact .inr (.inr hb)

theorem wanted_iff {tag : TagID} : wanted m tag = true ↔
    tag ∈ m.subscribed ∧ marker tag ≠ privateTagMarker ∧ tag ∉ m.selfSubCount := by
  simp [wanted, and_assoc]

/-- Fewer tags are wanted, and each has its place. -/
theorem Inv.mono (h : Inv m) (hs : m₁.subscribed = m.subscribed) (hself : ∀ tag ∈ m.selfSubCount, tag ∈ m₁.selfSubCount)
    (hplace : ∀ tag, wanted m tag = true → tag ∈ m.pendingTags ∨ OnWay m tag ∨ tag ∈ m.tagToMachine →
      tag ∈ m₁.pendingTags ∨ OnWay m₁ tag ∨ tag ∈ m₁.tagToMachine) : Inv m₁ := by
  intro tag hw
  obtain ⟨hsub, hmark, hno⟩ := wanted_iff.mp hw
  have hw' : wanted m tag = true := wanted_iff.mpr ⟨hs ▸ hsub, hmark, fun hc => hno (hself tag hc)⟩
  exact hplace tag hw' (h tag hw')

theorem onWay_addPending {key : AddrPort} {info : PendingInfo} {tag : TagID} (hfree : key ∉ m.pendingConns)
    (h : OnWay m tag) : OnWay (m.addPending key info) tag := by
  obtain ⟨key', info', hl, hrest⟩ := h
  refine ⟨key', info', ?_, hrest⟩
  rw [addPending, AList.lookup_insert_ne, hl]
  rintro rfl
  exact hfree (AList.lookup_isSome.mp (by rw [hl]; rfl))

theorem Inv.addPending {key : AddrPort} {info : PendingInfo} (h : Inv m) (hfree : key ∉ m.pendingConns) :
    Inv (m.addPending key info) :=
  h.mono rfl (fun _ h => h) fun _ _ hp => hp.imp_right fun hp => hp.imp_left (onWay_addPending hfree)

/-- More tags are pending. -/
theorem Inv.addPendingTags (h : Inv m) (hp : ∀ tag ∈ m.pendingTags, tag ∈ m₁.pendingTags)
    (hs : m₁.subscribed = m.subscribed) (hself : ∀ tag ∈ m.selfSubCount, tag ∈ m₁.selfSubCount)
    (hc : m₁.pendingConns = m.pendingConns) (ht : m₁.tagToMachine = m.tagToMachine) : Inv m₁ := by
  refine h.mono hs hself fun tag _ hplace => ?_
  rw [OnWay, hc, ht]
  exact hplace.imp_left (hp tag)

theorem Inv.still (h : Inv m) (hs : Still m m₁) : Inv m₁ :=
  h.addPendingTags (fun _ hp => hs.pendingTags ▸ hp) hs.subscribed hs.selfSubCount hs.pendingConns hs.tagToMachine

/-- A tag whose connection goes was in its list. -/
theorem onWay_erase {key : AddrPort} {info : PendingInfo} {tag : TagID} (hl : m.pendingConns.lookup key = some info)
    (h : OnWay m tag) : (info.type = .subscription ∧ tag ∈ split info.tag nul 0) ∨ OnWay (m.erasePending key) tag := by
  obtain ⟨key', info', hl', hc, htype, ht⟩ := h
  by_cases hk : key' = key
  · subst hk
    rw [hl] at hl'
    cases hl'
    exact .inl ⟨htype, ht⟩
  · exact .inr ⟨key', info', (AList.lookup_erase_ne hk).trans hl', hc, htype, ht⟩

/-! ## The attempts to connect -/

/-- A list of the first loop keeps its tags when one is added. -/
theorem mem_split_appendTag {list t tag : Str} (hne : tag ≠ []) (h : tag ∈ split list nul 0) :
    tag ∈ split (appendTag list t) nul 0 := by
  unfold appendTag
  split
  · rename_i he
    rw [List.isEmpty_iff.mp he, split_of_notMem List.not_mem_nil] at h
    exact absurd (List.mem_singleton.mp h) hne
  · rw [List.append_assoc, List.singleton_append, split_append]
    exact List.mem_append_left _ h

theorem mem_split_appendTag_self {list tag : Str} (h : nul ∉ tag) : tag ∈ split (appendTag list tag) nul 0 := by
  unfold appendTag
  split
  · rename_i he
    rw [List.isEmpty_iff.mp he, List.nil_append, split_of_notMem h]
    exact List.mem_singleton_self tag
  · rw [List.append_assoc, List.singleton_append, split_snoc _ h]
    exact List.mem_append_right _ (List.mem_singleton_self tag)

/-- In one of the lists of the first loop. -/
def Listed (toConn : AList fun _ : Str => Str) (tag : TagID) : Prop :=
  ∃ address list, toConn.lookup address = some list ∧ tag ∈ split list nul 0

theorem listed_addToConn {toConn : AList fun _ : Str => Str} {tag : TagID} (address : Str) (t : TagID) (hne : tag ≠ [])
    (h : Listed toConn tag) : Listed (Manager.addToConn toConn address t) tag := by
  obtain ⟨address', list, hl, hmem⟩ := h
  unfold Manager.addToConn
  by_cases ha : address' = address
  · subst ha
    rw [hl]
    exact ⟨address', _, AList.lookup_insert _, mem_split_appendTag hne hmem⟩
  · exact ⟨address', list, (AList.lookup_insert_ne ha).trans hl, hmem⟩

theorem listed_addToConn_self (toConn : AList fun _ : Str => Str) (address : Str) {tag : TagID} (h : nul ∉ tag) :
    Listed (Manager.addToConn toConn address tag) tag := by
  refine ⟨address, _, AList.lookup_insert _, ?_⟩
  cases toConn.lookup address with
  | none =>
    show tag ∈ split tag nul 0
    rw [split_of_notMem h]
    exact List.mem_singleton_self tag
  | some list => exact mem_split_appendTag_self h

/-- Where the first loop has put the tags. -/
structure Sorted (m : Manager V) (rest : List TagID) (s : InitLoop V) : Prop where
  pendingConns : s.m.pendingConns = m.pendingConns
  subscribed : s.m.subscribed = m.subscribed
  selfSubCount : ∀ tag ∈ m.selfSubCount, tag ∈ s.m.selfSubCount
  bound : ∀ tag ∈ m.tagToMachine, tag ∈ s.m.tagToMachine
  placed : ∀ tag ∈ m.pendingTags, wanted m tag = true →
    tag ∈ rest ∨ tag ∈ s.kept ∨ (tag ≠ [] ∧ Listed s.toConn tag) ∨ tag ∈ s.m.tagToMachine

/-- One tag has found its place, and the others keep theirs. -/
theorem Sorted.next {tag : TagID} {rest : List TagID} {s s' : InitLoop V} (h : Sorted m (tag :: rest) s)
    (hc : s'.m.pendingConns = s.m.pendingConns) (hs : s'.m.subscribed = s.m.subscribed)
    (hself : ∀ t ∈ s.m.selfSubCount, t ∈ s'.m.selfSubCount) (hb : ∀ t ∈ s.m.tagToMachine, t ∈ s'.m.tagToMachine)
    (hkept : ∀ t ∈ s.kept, t ∈ s'.kept) (hlisted : ∀ t, t ≠ [] → Listed s.toConn t → Listed s'.toConn t)
    (htag : tag ∈ m.pendingTags → wanted m tag = true →
      tag ∈ s'.kept ∨ (tag ≠ [] ∧ Listed s'.toConn tag) ∨ tag ∈ s'.m.tagToMachine) : Sorted m rest s' where
  pendingConns := hc.trans h.pendingConns
  subscribed := hs.trans h.subscribed
  selfSubCount t ht := hself t (h.selfSubCount t ht)
  bound t ht := hb t (h.bound t ht)
  placed t ht hw := by
    rcases h.placed t ht hw with hr | hk | ⟨hne, hl⟩ | hbound
    · rcases List.mem_cons.mp hr with rfl | hr
      · exact .inr (htag ht hw)
      · exact .inl hr
    · exact .inr (.inl (hkept t hk))
    · exact .inr (.inr (.inl ⟨hne, hlisted t hne hl⟩))
    · exact .inr (.inr (.inr (hb t hbound)))

theorem initLoop_sorted (hmoves : ∀ tag ∈ m.pendingTags, wanted m tag = true → movesWell env m tag = true) :
    (m.pendingTags.foldlM (Manager.initTag env) ⟨m, [], ∅⟩).Ends (Sorted m []) fun _ => True := by
  refine Manager.initLoop_rule (fun _ _ => trivial) ⟨rfl, rfl, fun _ h => h, fun _ h => h, fun _ ht _ => .inl ht⟩
    (fun {before tag rest s} _ hr h => ?_) (fun {before tag rest s} _ hr h => ?_)
    (fun {before tag rest s ptr id} _ hr _ h => ?_) (fun {before tag rest s address} _ hr h => ?_)
  · -- a tag that the machine produces is not wanted
    refine h.next rfl rfl (fun t ht => (AList.mem_insert _).mpr (.inr ht)) (fun _ h => h) (fun _ h => h)
      (fun _ _ h => h) fun _ hw => ?_
    exact absurd (Manager.route_selfProduced hr) (wanted_iff.mp hw).2.2
  · exact h.next rfl rfl (fun _ h => h) (fun _ h => h) (fun _ h => List.mem_append_left _ h) (fun _ _ h => h)
      fun _ _ => .inl (List.mem_append_right _ (List.mem_singleton_self tag))
  · refine (Manager.finalizePending_still env ptr id tag s.m).mono ?_ fun _ _ => trivial
    intro m' hex
    obtain ⟨hroutes, hm'⟩ := hex
    by_cases hp : marker tag = publishTagMarker
    · rw [if_pos hp] at hm'
      refine h.next hm'.pendingConns hm'.subscribed hm'.selfSubCount (fun t ht => ?_) (fun _ h => h) (fun _ _ h => h)
        fun ht hw => .inr (.inr ?_)
      · rw [hm'.tagToMachine]
        exact mem_bindTags.mpr (.inr ht)
      · have hmw := hmoves tag ht hw
        rw [movesWell, hr] at hmw
        have hnul : nul ∉ tag := by simpa using ((Bool.and_eq_true _ _).mp hmw).2
        rw [hm'.tagToMachine]
        exact mem_bindTags.mpr (.inl (by rw [split_of_notMem hnul]; exact List.mem_singleton_self tag))
    · rw [if_neg hp] at hm'
      obtain ⟨fin, -, hs⟩ := hm'
      refine h.next hs.pendingConns hs.subscribed hs.selfSubCount (fun t ht => ?_) (fun _ h => h) (fun _ _ h => h)
        fun ht hw => ?_
      · rw [hs.tagToMachine]
        exact ht
      · have hmw := hmoves tag ht hw
        rw [movesWell, hr] at hmw
        have hpub : marker tag = publishTagMarker := by simpa using ((Bool.and_eq_true _ _).mp hmw).1
        exact absurd hpub hp
  · refine h.next rfl rfl (fun _ h => h) (fun _ h => h) (fun _ h => h)
      (fun t hne hl => listed_addToConn address tag hne hl) fun ht hw => .inr (.inl ?_)
    have hmw := hmoves tag ht hw
    rw [movesWell, hr] at hmw
    obtain ⟨hne, hnul⟩ := (Bool.and_eq_true _ _).mp hmw
    exact ⟨by simpa using hne, listed_addToConn_self _ _ (by simpa using hnul)⟩

/-- What the second loop does to the tags that are wanted. -/
structure Started (w : TagID → Bool) (s : Manager V) (entries rest : List (Σ _ : Str, Str)) (m : Manager V) : Prop where
  subscribed : m.subscribed = s.subscribed
  selfSubCount : m.selfSubCount = s.selfSubCount
  tagToMachine : m.tagToMachine = s.tagToMachine
  onWay : ∀ tag, OnWay s tag → OnWay m tag
  placed : ∀ tag, w tag = true → (∃ e ∈ entries, tag ∈ split e.2 nul 0) →
    (∃ e ∈ rest, tag ∈ split e.2 nul 0) ∨ OnWay m tag

theorem startConnections_started {w : TagID → Bool} {s : Manager V} {entries : List (Σ _ : Str, Str)}
    (hw : startsWell env w entries s = true) :
    (entries.foldlM (startConnection env) s).Ends (Started w s entries []) fun _ => True := by
  refine Except.Ends.mono (P := fun m => startsWell env w [] m = true ∧ Started w s entries [] m)
    (E := fun _ => True) ?_ (fun _ h => h.2) fun _ h => h
  refine .foldlM (I := fun rest m => startsWell env w rest m = true ∧ Started w s entries rest m)
    ⟨hw, rfl, rfl, rfl, fun _ h => h, fun _ _ h => .inl h⟩ fun e rest m _ h => ?_
  obtain ⟨hwell, hs⟩ := h
  obtain ⟨he, hrest⟩ := (Bool.and_eq_true _ _).mp hwell
  have hcases : (m.startConnection env e).Ends _ Abort.Other := Manager.startConnection_cases e m
  cases hx : m.startConnection env e with
  | error a => trivial
  | ok m₁ =>
    rw [hx] at hrest
    refine ⟨hrest, ?_⟩
    have hgood {tag : TagID} (ht : tag ∈ split e.2 nul 0) (hwt : w tag = true) :
        marker e.2 = publishTagMarker ∧ splitAddress e.1 ∉ m.pendingConns ∧
          Manager.connectNonBlocking env e.1 ≠ .ok .unrecoverable := by
      have hany : (split e.2 nul 0).any w = true := List.any_eq_true.mpr ⟨tag, ht, hwt⟩
      rw [hany, Bool.not_true, Bool.false_or, Bool.and_eq_true, Bool.and_eq_true] at he
      obtain ⟨⟨hmark, hfree⟩, hconn⟩ := he
      refine ⟨by simpa using hmark, by simpa using hfree, fun hc => ?_⟩
      rw [hc] at hconn
      cases hconn
    rcases hcases.of_ok hx with ⟨hc, rfl⟩ | ⟨key, conn, hfree, rfl, hconn⟩
    · refine ⟨hs.subscribed, hs.selfSubCount, hs.tagToMachine, hs.onWay, fun tag hwt hex => ?_⟩
      rcases hs.placed tag hwt hex with ⟨e', hmem, ht⟩ | hon
      · rcases List.mem_cons.mp hmem with rfl | hmem
        · exact absurd hc (hgood ht hwt).2.2
        · exact .inl ⟨e', hmem, ht⟩
      · exact .inr hon
    · refine ⟨hs.subscribed, hs.selfSubCount, hs.tagToMachine, fun tag h => onWay_addPending hfree (hs.onWay tag h),
        fun tag hwt hex => ?_⟩
      rcases hs.placed tag hwt hex with ⟨e', hmem, ht⟩ | hon
      · rcases List.mem_cons.mp hmem with rfl | hmem
        · obtain ⟨hmark, hkey, -⟩ := hgood ht hwt
          refine .inr ⟨key, _, AList.lookup_insert _, hconn hkey, ?_, ht⟩
          rw [Manager.connTypeOf, if_pos hmark]
        · exact .inl ⟨e', hmem, ht⟩
      · exact .inr (onWay_addPending hfree hon)

theorem initConnections_inv (hm : Inv m) (hC : initsWell env m = true) :
    (m.initConnections env).Ends Inv fun _ => True := by
  obtain ⟨hmoves, hstarts⟩ := (Bool.and_eq_true _ _).mp hC
  have hmoves' (tag : TagID) (ht : tag ∈ m.pendingTags) (hw : wanted m tag = true) : movesWell env m tag = true := by
    simpa [hw] using List.all_eq_true.mp hmoves tag ht
  have hsorted := initLoop_sorted hmoves'
  unfold Manager.initConnections
  cases hx : m.pendingTags.foldlM (Manager.initTag env) ⟨m, [], ∅⟩ with
  | error a => trivial
  | ok s =>
    rw [hx] at hstarts hsorted
    rw [Except.ok_bind]
    refine .bind (startConnections_started hstarts) fun m₁ h₁ => ?_
    refine hm.mono (h₁.subscribed.trans hsorted.subscribed) (fun tag ht => ?_) fun tag hw hplace => ?_
    · exact h₁.selfSubCount ▸ hsorted.selfSubCount tag ht
    · rcases hplace with hp | hon | hb
      · rcases hsorted.placed tag hp hw with hr | hk | ⟨-, address, list, hl, ht⟩ | hbound
        · cases hr
        · exact .inl hk
        · have hmem : (⟨address, list⟩ : Σ _ : Str, Str) ∈ env.order s.toConn.entries :=
            env.mem_order.mpr (AList.mem_entries_iff.mpr hl)
          rcases h₁.placed tag hw ⟨_, hmem, ht⟩ with ⟨e, hno, -⟩ | hon
          · cases hno
          · exact .inr (.inl hon)
        · exact .inr (.inr (h₁.tagToMachine ▸ hbound))
      · have hon' : OnWay s.m tag := by
          rw [OnWay, hsorted.pendingConns]
          exact hon
        exact .inr (.inl (h₁.onWay tag hon'))
      · exact .inr (.inr (h₁.tagToMachine ▸ hsorted.bound tag hb))

/-! ## Steps -/

theorem tagRule : TagRule (V := V) (fun s l => cond s l = true) Inv fun _ => True where
  initial port id interval jobs := fun tag hw => absurd (wanted_iff.mp hw).1 List.not_mem_nil
  other _ _ := trivial
  still hs hm := hm.still hs
  subscribe := by
    intro pc m tagIds env fresh hC hm hnd hmem tag hw
    obtain ⟨hsub, hmark, hno⟩ := wanted_iff.mp hw
    rcases List.mem_append.mp hsub with hsub | hsub
    · exact (hm tag (wanted_iff.mpr ⟨hsub, hmark, hno⟩)).imp_left (List.mem_append_left _)
    · by_cases hp : tag ∈ m.pendingTags
      · exact .inl (List.mem_append_left _ hp)
      by_cases hb : tag ∈ m.tagToMachine
      · exact .inr (.inr hb)
      · refine .inl (List.mem_append_right _ ((hmem tag).mpr ⟨hsub, ?_⟩))
        simp [Manager.wants, hp, hb, hmark]
  ipSubscribe _ hm _ hfree := hm.addPending hfree
  connects hm hfree := hm.addPending hfree
  createReduceGroup _ hm _ :=
    hm.addPendingTags (fun _ h => List.mem_append_left _ h) rfl (fun _ h => (AList.mem_insert _).mpr (.inr h)) rfl rfl
  rebuildReduceGroup _ hm _ := hm.addPendingTags (fun _ h => List.mem_append_left _ h) rfl (fun _ h => h) rfl rfl
  handshakeSent := by
    intro m key info hm hl
    refine hm.mono rfl (fun _ h => h) fun tag _ hplace => hplace.imp_right fun hp => hp.imp_left ?_
    intro hex
    obtain ⟨key', info', hl', hrest⟩ := hex
    by_cases hk : key' = key
    · subst hk
      rw [hl] at hl'
      cases hl'
      exact ⟨key', _, AList.lookup_insert _, hrest⟩
    · exact ⟨key', info', (AList.lookup_insert_ne hk).trans hl', hrest⟩
  handshakeFailed := by
    intro key todo new m info send env hC hm hl _ hsend
    refine hm.mono rfl (fun _ h => h) fun tag hw hplace => hplace.imp_right fun hp => hp.imp_left fun hon => ?_
    rcases onWay_erase hl hon with ⟨htype, ht⟩ | hon
    · have hany : (split info.tag nul 0).any (wanted m) = true := List.any_eq_true.mpr ⟨tag, ht, hw⟩
      simp only [cond, hl, htype, hany] at hC
      exact absurd (by simpa using hC) hsend
    · exact hon
  dropped := by
    intro key todo new m info event env _ hm hl _ _
    refine hm.mono rfl (fun _ h => h) fun tag _ hplace => ?_
    rcases hplace with hp | hon | hb
    · exact .inl (List.mem_append_left _ hp)
    · rcases onWay_erase hl hon with ⟨htype, ht⟩ | hon
      · refine .inl (List.mem_append_right _ ?_)
        rw [carried, htype]
        exact ht
      · exact .inr (.inl hon)
    · exact .inr (.inr hb)
  greeted := by
    intro key todo new m m₁ info sender neighbors port ip env _ hm hl _ hc
    obtain ⟨records, addresses, next, hg⟩ := greet_eq env sender neighbors port ip m
    rw [hg] at hc
    cases hc with
    | nothing htype htype' =>
      refine hm.mono rfl (fun _ h => h) fun tag _ hplace => hplace.imp_right fun hp => hp.imp_left fun hon => ?_
      exact (onWay_erase hl hon).resolve_left fun h => htype h.1
    | binds =>
      refine hm.mono rfl (fun _ h => h) fun tag _ hplace => hplace.imp_right fun hp => ?_
      rcases hp with hon | hb
      · rcases onWay_erase hl hon with ⟨hsub, ht⟩ | hon
        · refine .inr (mem_bindTags.mpr (.inl ?_))
          rw [boundBy, hsub]
          exact ht
        · exact .inl hon
      · exact .inr (mem_bindTags.mpr (.inr hb))
    | joins htype hf =>
      refine hm.mono rfl (fun _ h => h) fun tag _ hplace => hplace.imp_right fun hp => hp.imp_left fun hon => ?_
      refine (onWay_erase hl hon).resolve_left fun h => ?_
      rw [htype] at h
      cases h.1
  noGroup _ _ _ _ := trivial
  init hC hm := initConnections_inv hm hC
  remove := by
    intro m id e hm _ env removed
    refine hm.mono rfl (fun _ h => h) fun tag _ hplace => ?_
    rcases hplace with hp | hon | hb
    · exact .inl (List.mem_append_left _ hp)
    · exact .inr (.inl hon)
    · obtain ⟨ptr, hptr⟩ := Option.isSome_iff_exists.mp (AList.lookup_isSome.mpr hb)
      by_cases he : ptr = e.ptr
      · exact .inl (List.mem_append_right _ (Manager.mem_tagsOf.mpr (he ▸ hptr)))
      · refine .inr (.inr (AList.lookup_isSome.mp ?_))
        rw [AList.lookup_eraseVal, hptr, Option.filter_some]
        simp [he]

variable [Typed V]

/-- **No subscription is lost** in a run whose steps meet the condition. -/
theorem nothing_lost {pc : Pc} {m : Manager V}
    (h : ((lts V).restrict fun s l => cond s l = true).Reachable (.running pc m)) : NothingLost m :=
  (tagRule.holds.reachable _ h : Inv m).nothingLost

/-! ## A neighbour reports who publishes the tag -/

def subscribed : TagID := ['p', 't']

def told : List (Label Nat) :=
  .subscribe [subscribed] quietEnv :: connected ++
    [.message (.reportPublishers [subscribed] [[['a', ':', '1']]] [[['x']]] []) quietEnv]

/-- The connect to the publisher fails at once. -/
def failingEnv : Env := { quietEnv with initConnection := fun _ _ => .failed }

theorem tag_lost : ∃ (pc : Pc) (m : Manager Nat), (lts Nat).Reachable (.running pc m) ∧ ¬ NothingLost m := by
  obtain ⟨pc, m, hx, hw, hp, hc, hb⟩ : ∃ (pc : Pc) (m : Manager Nat),
      LTS.exec step machine (told ++ [.init failingEnv]) = some (.running pc m) ∧ wanted m subscribed = true ∧
      m.pendingTags = [] ∧ m.pendingConns = ∅ ∧ m.tagToMachine.lookup subscribed = none :=
    ⟨_, _, rfl, rfl, rfl, rfl, rfl⟩
  refine ⟨pc, m, LTS.reachable_of_exec initial_machine hx, fun h => ?_⟩
  rcases h subscribed hw with hmem | ⟨key, info, hl, -⟩ | hbound
  · rw [hp] at hmem
    cases hmem
  · rw [hc] at hl
    cases hl
  · exact AList.lookup_eq_none.mp hb hbound

/-- Where the connect is in progress, the tag travels. -/
theorem nothing_lost_told : ∃ m : Manager Nat, wanted m subscribed = true ∧ m.pendingTags = [] ∧
    m.tagToMachine.lookup subscribed = none ∧ NothingLost m := by
  obtain ⟨pc, m, hx, hw, hp, hb⟩ : ∃ (pc : Pc) (m : Manager Nat),
      LTS.exec (LTS.guarded step fun s l => cond s l = true) machine (told ++ [.init quietEnv]) =
        some (.running pc m) ∧ wanted m subscribed = true ∧ m.pendingTags = [] ∧
      m.tagToMachine.lookup subscribed = none := ⟨_, _, rfl, rfl, rfl, rfl⟩
  exact ⟨m, hw, hp, hb, nothing_lost (LTS.restrict_reachable_of_exec initial_machine hx)⟩

end Skywing.L4.Subscriptions
