import Skywing.Core.LTS
import Skywing.L4App.FreshUpdates

/-!
# Waiting for a job's data

`skywing_core/waiter.hpp` over the waiters of `Job::get_waiter`. A thread asks
under the lock of `bufs_` whether a waiter is ready; if not it gives the lock
up and sleeps on `data_buffer_modified_cv_`, and asks again once it is awake.
`process_data` and `mark_tag_as_dead` notify under the same lock;
`init_or_update_subscribe` does not. Any number of threads wait, and the
manager's thread and new subscriptions go on between any two of their steps. A
`Waiter` is a `WaiterVec` of one.

Results:
* `no_lost_wakeup_iff`: no thread sleeps on a waiter that is ready, in any
  state of a run, exactly where no subscription is renewed that a thread
  sleeps on.
* `all_ready`: `WaiterVec` asks one waiter after the other, and gives the lock
  up in between; still, when `wait` returns, or `is_ready` with true, all of
  them are ready at once, unless somebody else fetches the data, a connection
  id comes round to that of a waiter, or a value has the version of an empty
  buffer.
-/
namespace Skywing.L5.Wakeups

open L2.TagBuffer L3

/-- mirrors skywing/skywing_core/waiter.hpp:158,172,204,311,321,344 -/
inductive Call
  | get
  | wait
  | isReady
  deriving DecidableEq, Repr

/-- Where a thread is; `k` counts the waiters found ready so far. -/
inductive Thread
  | running
  /-- at the lock of `bufs_` -/
  | asking (call : Call) (waiters : List Job.Waiter) (k : Nat)
  /-- in `data_buffer_modified_cv_.wait` -/
  | blocked (call : Call) (waiters : List Job.Waiter) (k : Nat)
  /-- the call has returned, `is_ready` with true -/
  | returned (call : Call) (waiters : List Job.Waiter)
  deriving DecidableEq, Repr

structure State (α : Type) where
  job : Job α
  threads : Nat → Thread

def notifyAll (threads : Nat → Thread) (t : Nat) : Thread :=
  match threads t with
  | .blocked call waiters k => .asking call waiters k
  | thread => thread

section Steps
variable {α : Type} [Typed α]

inductive Lbl (α : Type)
  /-- the manager's thread: a value arrives -/
  | data (tag : TagID) (value : α) (version : VersionID)
  /-- the manager's thread: a publisher has died -/
  | dead (tag : TagID)
  | subscribe (tags : List (TagID × List UInt8 × Option (DiscardOldVersionTagBuffer α)))
  | call (t : Nat) (call : Call) (waiters : List Job.Waiter)
  /-- the thread has the lock and evaluates its predicate -/
  | ask (t : Nat)
  /-- a spurious wakeup -/
  | wake (t : Nat)
  /-- the deadline of `wait_until` has passed -/
  | timeOut (t : Nat)

/-- What is done with a waiter that is ready: only `get` takes the value.
mirrors skywing/skywing_core/waiter.hpp:167,311-319 -/
def fetch (call : Call) (j : Job α) (w : Job.Waiter) : Option (Job α) :=
  match call with
  | .get => (j.getValue w).map (·.2)
  | .wait | .isReady => some j

/-- mirrors skywing/skywing_core/waiter.hpp:158-178,204-224,311-326,344-352,
job.hpp:184-200 -/
def ask (s : State α) (t : Nat) : Option (State α) :=
  match s.threads t with
  | .asking call waiters k =>
    match waiters[k]? with
    | none => some { s with threads := Function.update s.threads t (.returned call waiters) }
    | some w => do
      if ← s.job.isReady w then
        let job ← fetch call s.job w
        return { job := job, threads := Function.update s.threads t (.asking call waiters (k + 1)) }
      else
        return { s with threads := Function.update s.threads t (match call with
          | .isReady => .running
          | .get | .wait => .blocked call waiters k) }
  | _ => none

/-- The predicate is evaluated a last time.
mirrors skywing/skywing_core/waiter.hpp:193-199,329-335 -/
def timeOut (s : State α) (t : Nat) : Option (State α) :=
  match s.threads t with
  | .blocked .wait waiters k => do
    let w ← waiters[k]?
    let ready ← s.job.isReady w
    return { s with threads := Function.update s.threads t (if ready then .asking .wait waiters (k + 1) else .running) }
  | _ => none

/-- A value or a death is only notified of where the tag is subscribed to.
mirrors skywing/skywing_core/job.cpp:37-74,100-114,146-175 -/
def step (s : State α) : Lbl α → Option (State α)
  | .data tag value version =>
    (s.job.processData tag value version).map fun r =>
      { job := r.2, threads := if tag ∈ s.job.bufs then notifyAll s.threads else s.threads }
  | .dead tag =>
    some { job := s.job.markTagAsDead tag, threads := if tag ∈ s.job.bufs then notifyAll s.threads else s.threads }
  | .subscribe tags => (s.job.initOrUpdateSubscribe tags).map fun job => { s with job := job }
  | .call t call waiters =>
    match s.threads t with
    | .running | .returned _ _ => some { s with threads := Function.update s.threads t (.asking call waiters 0) }
    | _ => none
  | .ask t => ask s t
  | .wake t =>
    match s.threads t with
    | .blocked call waiters k => some { s with threads := Function.update s.threads t (.asking call waiters k) }
    | _ => none
  | .timeOut t => timeOut s t

end Steps

/-! ## What makes a waiter ready -/

section Ready
variable {α : Type} {j j' : Job α} {w : Job.Waiter}

theorem isReady_iff {ready : Bool} : j.isReady w = some ready ↔
    ∃ info b, j.bufs.lookup w.tag = some info ∧ info.buffer = some b ∧
      (b.hasData || info.errorOccurred != .noError || info.connectionId != w.tagConnId) = ready := by
  simp only [Job.isReady, Option.bind_eq_bind, Option.bind_eq_some_iff, Option.pure_def, Option.some.injEq]
  constructor
  · intro hex
    obtain ⟨info, hi, b, hb, h⟩ := hex
    exact ⟨info, b, hi, hb, h⟩
  · intro hex
    obtain ⟨info, b, hi, hb, h⟩ := hex
    exact ⟨info, hi, b, hb, h⟩

theorem isReady_of_lookup (h : j'.bufs.lookup w.tag = j.bufs.lookup w.tag) : j'.isReady w = j.isReady w := by
  unfold Job.isReady
  rw [h]

/-- Fetching for one waiter makes no other ready. -/
theorem isReady_getValue {v : Job.Waiter} {value : Option α} (hw : j.isReady w = some false)
    (hv : j.getValue v = some (value, j')) : j'.isReady w = some false := by
  obtain ⟨info, b, hi, hb, hready⟩ := isReady_iff.mp hw
  simp only [Job.getValue, Option.bind_eq_bind, Option.bind_eq_some_iff, Option.pure_def] at hv
  obtain ⟨info', hi', b', hb', hv⟩ := hv
  split at hv
  · rename_i hdata
    obtain ⟨r, -, hv⟩ := Option.bind_eq_some_iff.mp hv
    obtain ⟨x, -, hv⟩ := Option.bind_eq_some_iff.mp hv
    cases hv
    rw [isReady_of_lookup (j := j), hw]
    refine Job.setInfo_of_ne j _ fun htag => ?_
    rw [← htag, hi] at hi'
    cases hi'
    rw [hb] at hb'
    cases hb'
    rw [hdata] at hready
    cases hready
  · cases hv
    exact hw

/-- An entry after `n` renewals in one call. -/
def renew (n : Nat) (info : TagInfo α) : TagInfo α :=
  if n = 0 then info
  else { info with
    buffer := info.buffer.map (·.reset), connectionId := info.connectionId + UInt16.ofNat n, errorOccurred := .noError }

theorem renew_renew (n : Nat) (info : TagInfo α) :
    renew n { info with
      connectionId := info.connectionId + 1, buffer := info.buffer.map (·.reset), errorOccurred := .noError } =
    renew (n + 1) info := by
  unfold renew
  rw [if_neg (Nat.succ_ne_zero n)]
  have hid : info.connectionId + UInt16.ofNat (n + 1) = info.connectionId + 1 + UInt16.ofNat n := by
    rw [UInt16.ofNat_add, UInt16.add_comm (UInt16.ofNat n), UInt16.add_assoc]
    rfl
  rw [hid]
  split
  · rename_i hn
    subst hn
    simp
  · cases info.buffer <;> rfl

/-- A tag is renewed once for each place it has among the tags. -/
theorem lookup_initOrUpdate : ∀ {tags : List (TagID × List UInt8 × Option (DiscardOldVersionTagBuffer α))}
    {j j' : Job α} {tag : TagID} {info : TagInfo α}, j.initOrUpdateSubscribe tags = some j' →
    j.bufs.lookup tag = some info → j'.bufs.lookup tag = some (renew ((tags.map Prod.fst).count tag) info)
  | [], j, j', tag, info, h, hi => by
    cases h
    exact hi
  | (t, types, ptr) :: tags, j, j', tag, info, h, hi => by
    obtain ⟨j₁, h₁, hrest⟩ := Option.bind_eq_some_iff.mp h
    unfold Job.initOrUpdateTag at h₁
    by_cases ht : tag = t
    · subst ht
      rw [hi] at h₁
      obtain ⟨b, hb, rfl⟩ := Option.map_eq_some_iff.mp h₁
      rw [lookup_initOrUpdate hrest (Job.setInfo_self _ _ _), List.map_cons, List.count_cons_self, ← renew_renew, hb]
      rfl
    · rw [List.map_cons, List.count_cons_of_ne (Ne.symm ht)]
      refine lookup_initOrUpdate hrest ?_
      rw [← hi]
      split at h₁
      · cases h₁
        exact Job.setInfo_of_ne j _ ht
      · obtain ⟨b, -, rfl⟩ := Option.map_eq_some_iff.mp h₁
        exact Job.setInfo_of_ne j _ ht

theorem isReady_renewed {tags : List (TagID × List UInt8 × Option (DiscardOldVersionTagBuffer α))}
    (hw : j.isReady w = some false) (h : j.initOrUpdateSubscribe tags = some j') :
    j'.isReady w = some (UInt16.ofNat ((tags.map Prod.fst).count w.tag) != 0) := by
  obtain ⟨info, b, hi, hb, hready⟩ := isReady_iff.mp hw
  simp only [Bool.or_eq_false_iff, bne_eq_false_iff_eq] at hready
  obtain ⟨⟨hdata, herr⟩, hcid⟩ := hready
  have hi' := lookup_initOrUpdate h hi
  generalize (tags.map Prod.fst).count w.tag = n at hi' ⊢
  refine isReady_iff.mpr ?_
  by_cases hn : n = 0
  · subst hn
    refine ⟨info, b, hi', hb, ?_⟩
    simp [hdata, herr, hcid]
  · refine ⟨_, b.reset, hi', by simp [renew, hn, hb], ?_⟩
    have hreset : b.reset.hasData = false := by
      simp [DiscardOldVersionTagBuffer.hasData, DiscardOldVersionTagBuffer.reset]
    rw [hreset]
    simp only [renew, hn, if_false, hcid, bne_self_eq_false, Bool.or_false, Bool.false_or]
    rw [Bool.eq_iff_iff, bne_iff_ne, bne_iff_ne]
    refine not_congr ⟨fun he => ?_, fun he => by rw [he, UInt16.add_zero]⟩
    exact (UInt16.add_right_inj w.tagConnId).mp (he.trans (UInt16.add_zero _).symm)

end Ready

/-! ## No wakeup is lost -/

section Lost
variable {α : Type} {s u : State α}

/-- Thread `t` sleeps on `w`. -/
def SleepsOn (s : State α) (t : Nat) (w : Job.Waiter) : Prop :=
  ∃ call waiters k, s.threads t = .blocked call waiters k ∧ waiters[k]? = some w

/-- Who sleeps has reason to. -/
def NoneLost (s : State α) : Prop := ∀ t w, SleepsOn s t w → s.job.isReady w = some false

theorem notifyAll_not_blocked (threads : Nat → Thread) (t : Nat) (call : Call) (waiters : List Job.Waiter) (k : Nat) :
    notifyAll threads t ≠ .blocked call waiters k := by
  unfold notifyAll
  split
  · exact fun h => by cases h
  · rename_i h
    exact fun he => h _ _ _ he

/-- A thread other than `t` sleeps as it did. -/
theorem NoneLost.update (h : NoneLost s) {job : Job α} {t : Nat} {thread : Thread}
    (hjob : ∀ w, s.job.isReady w = some false → job.isReady w = some false)
    (hthread : ∀ w call waiters k, thread = .blocked call waiters k → waiters[k]? = some w →
      job.isReady w = some false) :
    NoneLost { job := job, threads := Function.update s.threads t thread } := by
  intro t' w hsleep
  obtain ⟨call, waiters, k, ht, hw⟩ := hsleep
  by_cases htt : t' = t
  · subst htt
    exact hthread w call waiters k ((Function.update_self t' thread s.threads).symm.trans ht) hw
  · exact hjob w (h t' w ⟨call, waiters, k, (Function.update_of_ne htt thread s.threads).symm.trans ht, hw⟩)

theorem NoneLost.ask (h : NoneLost s) {t : Nat} (hs : ask s t = some u) : NoneLost u := by
  unfold Wakeups.ask at hs
  split at hs
  · rename_i call waiters k ht
    split at hs
    · cases hs
      exact h.update (fun _ hw => hw) (fun _ _ _ _ h => by cases h)
    · rename_i w hw
      obtain ⟨ready, hr, hs⟩ := Option.bind_eq_some_iff.mp hs
      cases ready with
      | true =>
        obtain ⟨job, hjob, hs⟩ := Option.bind_eq_some_iff.mp hs
        cases hs
        refine h.update (fun w' hw' => ?_) fun _ _ _ _ he => by cases he
        cases call with
        | get =>
          obtain ⟨⟨value, j⟩, hv, rfl⟩ := Option.map_eq_some_iff.mp hjob
          exact isReady_getValue hw' hv
        | wait | isReady =>
          cases hjob
          exact hw'
      | false =>
        cases hs
        refine h.update (fun _ hw => hw) fun w' call' waiters' k' he hw' => ?_
        cases call with
        | isReady => cases he
        | get | wait =>
          cases he
          cases hw.symm.trans hw'
          exact hr
  · cases hs

variable [Typed α]

/-- A thread is woken by whatever makes its waiter ready, other than a renewal. -/
theorem NoneLost.step {l : Lbl α} (h : NoneLost s) (hs : step s l = some u)
    (hl : ∀ tags, l = .subscribe tags → ∀ t w, SleepsOn s t w →
      UInt16.ofNat ((tags.map Prod.fst).count w.tag) = 0) : NoneLost u := by
  have hnotify {tag : TagID} {job : Job α} (hframe : tag ∉ s.job.bufs → job = s.job) :
      NoneLost { job := job, threads := if tag ∈ s.job.bufs then notifyAll s.threads else s.threads } := by
    intro t w hsleep
    obtain ⟨call, waiters, k, ht, hw⟩ := hsleep
    by_cases htag : tag ∈ s.job.bufs
    · rw [if_pos htag] at ht
      exact absurd ht (notifyAll_not_blocked _ _ _ _ _)
    · rw [if_neg htag] at ht
      rw [hframe htag]
      exact h t w ⟨call, waiters, k, ht, hw⟩
  cases l with
  | data tag value version =>
    obtain ⟨⟨ok, job⟩, hr, rfl⟩ := Option.map_eq_some_iff.mp hs
    refine hnotify fun htag => ?_
    rw [← AList.lookup_eq_none] at htag
    simp only [Job.processData, htag, Option.some.injEq, Prod.mk.injEq] at hr
    exact hr.2.symm
  | dead tag =>
    cases hs
    refine hnotify fun htag => ?_
    rw [← AList.lookup_eq_none] at htag
    simp only [Job.markTagAsDead, htag]
  | subscribe tags =>
    obtain ⟨job, hj, rfl⟩ := Option.map_eq_some_iff.mp hs
    intro t w hsleep
    have hw := h t w hsleep
    rw [isReady_renewed hw hj, hl tags rfl t w hsleep]
    rfl
  | call t call waiters =>
    simp only [Wakeups.step] at hs
    split at hs
    · cases hs
      exact h.update (fun _ hw => hw) (fun _ _ _ _ h => by cases h)
    · cases hs
      exact h.update (fun _ hw => hw) (fun _ _ _ _ h => by cases h)
    · cases hs
  | ask t => exact h.ask hs
  | wake t =>
    simp only [Wakeups.step] at hs
    split at hs
    · cases hs
      exact h.update (fun _ hw => hw) (fun _ _ _ _ h => by cases h)
    · cases hs
  | timeOut t =>
    simp only [Wakeups.step, timeOut] at hs
    split at hs
    · obtain ⟨w, -, hs⟩ := Option.bind_eq_some_iff.mp hs
      obtain ⟨ready, -, hs⟩ := Option.bind_eq_some_iff.mp hs
      cases hs
      refine h.update (fun _ hw => hw) fun w' call waiters k he => ?_
      cases ready <;> cases he
    · cases hs

/-- **Wakeups are lost exactly to renewals.** In every run from a state in
which no thread waits: no thread ever sleeps on a waiter that is ready if and
only if no call renews the subscription to a tag that a thread sleeps on. (A
call that renews one tag `2 ^ 16` times would go unnoticed, by the thread and
by the waiter.) -/
theorem no_lost_wakeup_iff (job : Job α) (ls : List (Lbl α)) :
    (∀ n u, LTS.Visits step ⟨job, fun _ => .running⟩ ls n u → NoneLost u) ↔
      ∀ n u v tags, LTS.Visits step ⟨job, fun _ => .running⟩ ls n u → ls[n]? = some (.subscribe tags) →
        step u (.subscribe tags) = some v → ∀ t w, SleepsOn u t w →
          (tags.map Prod.fst).count w.tag % 2 ^ 16 = 0 := by
  have hmod (n : Nat) : UInt16.ofNat n = 0 ↔ n % 2 ^ 16 = 0 := by
    rw [← UInt16.toNat_inj, UInt16.toNat_ofNat']
    rfl
  constructor
  · intro hall n u v tags hu hl hs t w hsleep
    have hnext := hall (n + 1) v ((LTS.visits_succ hu hl v).mpr hs)
    obtain ⟨job', hj, rfl⟩ := Option.map_eq_some_iff.mp hs
    have hready := hnext t w hsleep
    rw [isReady_renewed (hall n u hu t w hsleep) hj, Option.some.injEq, bne_eq_false_iff_eq] at hready
    exact (hmod _).mp hready
  · intro hno
    refine LTS.visits_induction ?_ fun n t l u ht hl hs h => ?_
    · rintro t w ⟨call, waiters, k, ht, -⟩
      cases ht
    · refine h.step hs fun tags he t' w hsleep => (hmod _).mpr ?_
      subst he
      exact hno n t u tags ht hl hs t' w hsleep

end Lost

/-! ## All at once -/

/-- The waiters that a call of `wait` or `is_ready` has found ready. -/
def Thread.found : Thread → List Job.Waiter
  | .running => []
  | .asking call waiters k | .blocked call waiters k => if call = .get then [] else waiters.take k
  | .returned call waiters => if call = .get then [] else waiters

section Ready
variable {α : Type} {s u : State α} {j j' : Job α} {w : Job.Waiter}

theorem isReady_true_iff : j.isReady w = some true ↔ ∃ info b, j.bufs.lookup w.tag = some info ∧
    info.buffer = some b ∧ (b.hasData = true ∨ info.errorOccurred ≠ .noError ∨ info.connectionId ≠ w.tagConnId) := by
  rw [isReady_iff]
  simp only [Bool.or_eq_true, bne_iff_ne, or_assoc]

/-- What is ready stays so when a value or a death is reported. -/
theorem isReady_processData [Typed α] {tag : TagID} {value : α} {version : VersionID} {ok : Bool}
    (hw : j.isReady w = some true) (hv : version ≠ tagNoData) (h : j.processData tag value version = some (ok, j')) :
    j'.isReady w = some true := by
  by_cases ht : w.tag = tag
  · subst ht
    obtain ⟨info, b, hi, hb, hready⟩ := isReady_true_iff.mp hw
    simp only [Job.processData, hi] at h
    split at h
    · cases h
      exact isReady_true_iff.mpr ⟨_, b, Job.setInfo_self _ _ _, hb, .inr (.inl (fun h => by cases h))⟩
    · obtain ⟨b', hb', h⟩ := Option.map_eq_some_iff.mp h
      cases hb.symm.trans hb'
      cases h
      exact isReady_true_iff.mpr ⟨_, _, Job.setInfo_self _ _ _, rfl,
        hready.imp_left fun hd => L4.FreshUpdates.hasData_add value hd hv⟩
  · rw [isReady_of_lookup ((Job.processData_frame h).1 w.tag ht)]
    exact hw

theorem isReady_markTagAsDead {tag : TagID} (hw : j.isReady w = some true) :
    (j.markTagAsDead tag).isReady w = some true := by
  obtain ⟨info, b, hi, hb, -⟩ := isReady_true_iff.mp hw
  unfold Job.markTagAsDead
  by_cases ht : w.tag = tag
  · subst ht
    rw [hi]
    exact isReady_true_iff.mpr ⟨_, b, Job.setInfo_self _ _ _, hb, .inr (.inl (fun h => by cases h))⟩
  · split
    · exact hw
    · rw [isReady_of_lookup (Job.setInfo_of_ne j _ ht)]
      exact hw

/-- A renewal leaves its mark on the connection id, unless that comes round. -/
theorem isReady_subscribe {tags : List (TagID × List UInt8 × Option (DiscardOldVersionTagBuffer α))}
    (hw : j.isReady w = some true) (h : j.initOrUpdateSubscribe tags = some j')
    (hid : ∀ info, j.bufs.lookup w.tag = some info → (tags.map Prod.fst).count w.tag ≠ 0 →
      info.connectionId + UInt16.ofNat ((tags.map Prod.fst).count w.tag) ≠ w.tagConnId) :
    j'.isReady w = some true := by
  obtain ⟨info, b, hi, hb, hready⟩ := isReady_true_iff.mp hw
  have hi' := lookup_initOrUpdate h hi
  refine isReady_true_iff.mpr ?_
  by_cases hn : (tags.map Prod.fst).count w.tag = 0
  · rw [hn] at hi'
    exact ⟨info, b, hi', hb, hready⟩
  · refine ⟨_, b.reset, hi', by simp [renew, hn, hb], .inr (.inr ?_)⟩
    rw [renew, if_neg hn]
    exact hid info hi hn

theorem isReady_fetch {call : Call} {v : Job.Waiter} (hw : j.isReady w = some true)
    (hv : call = .get → w.tag ≠ v.tag) (h : fetch call j v = some j') : j'.isReady w = some true := by
  cases call with
  | wait | isReady =>
    cases h
    exact hw
  | get =>
    obtain ⟨⟨value, j₁⟩, hr, rfl⟩ := Option.map_eq_some_iff.mp h
    simp only [Job.getValue, Option.bind_eq_bind, Option.bind_eq_some_iff, Option.pure_def] at hr
    obtain ⟨info, -, b, -, hr⟩ := hr
    split at hr
    · obtain ⟨r, -, hr⟩ := Option.bind_eq_some_iff.mp hr
      obtain ⟨x, -, hr⟩ := Option.bind_eq_some_iff.mp hr
      cases hr
      rw [isReady_of_lookup (Job.setInfo_of_ne j _ (hv rfl))]
      exact hw
    · cases hr
      exact hw

variable [Typed α]

/-- The steps that leave what was found ready: no value has the version of an
empty buffer, no renewal brings a connection id back to that of a waiter, and
nobody takes the value that another has waited for. -/
def Cond (s : State α) : Lbl α → Prop
  | .data _ _ version => version ≠ tagNoData
  | .subscribe tags => ∀ t, ∀ w ∈ (s.threads t).found, ∀ info, s.job.bufs.lookup w.tag = some info →
      (tags.map Prod.fst).count w.tag ≠ 0 →
        info.connectionId + UInt16.ofNat ((tags.map Prod.fst).count w.tag) ≠ w.tagConnId
  | .ask t => ∀ waiters k w, s.threads t = .asking .get waiters k → waiters[k]? = some w →
      ∀ t', ∀ w' ∈ (s.threads t').found, w'.tag ≠ w.tag
  | _ => True

def lts (α : Type) [Typed α] : LTS (State α) (Lbl α) := LTS.ofFn (fun s => ∀ t, s.threads t = .running) step

/-- What a call has found ready is ready. -/
def Inv (s : State α) : Prop := ∀ t, ∀ w ∈ (s.threads t).found, s.job.isReady w = some true

omit [Typed α] in
theorem found_notifyAll (threads : Nat → Thread) (t : Nat) : (notifyAll threads t).found = (threads t).found := by
  unfold notifyAll
  cases threads t <;> rfl

omit [Typed α] in
theorem Inv.update (h : Inv s) {t : Nat} {thread : Thread}
    (hjob : ∀ t', ∀ w ∈ (s.threads t').found, s.job.isReady w = some true → j.isReady w = some true)
    (hthread : ∀ w ∈ thread.found, j.isReady w = some true) :
    Inv { job := j, threads := Function.update s.threads t thread } := by
  intro t' w hw
  replace hw : w ∈ (Function.update s.threads t thread t').found := hw
  by_cases htt : t' = t
  · subst htt
    rw [Function.update_self] at hw
    exact hthread w hw
  · rw [Function.update_of_ne htt] at hw
    exact hjob t' w hw (h t' w hw)

omit [Typed α] in
/-- One more waiter has been found ready. -/
theorem found_succ {call : Call} {waiters : List Job.Waiter} {k : Nat} (hk : waiters[k]? = some w) {v : Job.Waiter}
    (hv : v ∈ (Thread.asking call waiters (k + 1)).found) :
    v ∈ (Thread.asking call waiters k).found ∨ call ≠ .get ∧ v = w := by
  simp only [Thread.found] at hv ⊢
  split at hv
  · cases hv
  · rename_i hc
    rw [if_neg hc]
    rw [List.take_add_one, hk, Option.toList_some, List.mem_append, List.mem_singleton] at hv
    exact hv.imp_right fun he => ⟨hc, he⟩

omit [Typed α] in
theorem Inv.ask (h : Inv s) {t : Nat} (hs : ask s t = some u)
    (hc : ∀ waiters k w, s.threads t = .asking .get waiters k → waiters[k]? = some w →
      ∀ t', ∀ w' ∈ (s.threads t').found, w'.tag ≠ w.tag) : Inv u := by
  unfold Wakeups.ask at hs
  split at hs
  · rename_i call waiters k ht
    have hown : ∀ w ∈ (Thread.asking call waiters k).found, s.job.isReady w = some true := fun w hw =>
      h t w (ht ▸ hw)
    split at hs
    · rename_i hk
      cases hs
      refine h.update (fun _ _ _ hw => hw) fun w hw => hown w ?_
      have hall : waiters.take k = waiters := List.take_of_length_le (List.getElem?_eq_none_iff.mp hk)
      simpa only [Thread.found, hall] using hw
    · rename_i w hk
      obtain ⟨ready, hr, hs⟩ := Option.bind_eq_some_iff.mp hs
      cases ready with
      | true =>
        obtain ⟨job, hjob, hs⟩ := Option.bind_eq_some_iff.mp hs
        cases hs
        have hkeep : ∀ t', ∀ v ∈ (s.threads t').found, s.job.isReady v = some true → job.isReady v = some true :=
          fun t' v hv hready => isReady_fetch hready (fun hg => hc waiters k w (hg ▸ ht) hk t' v hv) hjob
        refine h.update hkeep fun v hv => ?_
        rcases found_succ hk hv with hv | ⟨hg, rfl⟩
        · exact hkeep t v (ht ▸ hv) (hown v hv)
        · exact isReady_fetch hr (fun he => absurd he hg) hjob
      | false =>
        cases hs
        refine h.update (fun _ _ _ hw => hw) fun v hv => ?_
        cases call with
        | get | isReady => cases hv
        | wait => exact hown v hv
  · cases hs

theorem inv_step {l : Lbl α} (h : Inv s) (hs : step s l = some u) (hc : Cond s l) : Inv u := by
  have hnotify {tag : TagID} {job : Job α}
      (hjob : ∀ w, s.job.isReady w = some true → job.isReady w = some true) :
      Inv { job := job, threads := if tag ∈ s.job.bufs then notifyAll s.threads else s.threads } := by
    intro t w hw
    refine hjob w (h t w ?_)
    replace hw : w ∈ ((if tag ∈ s.job.bufs then notifyAll s.threads else s.threads) t).found := hw
    split at hw
    · rwa [found_notifyAll] at hw
    · exact hw
  cases l with
  | data tag value version =>
    obtain ⟨⟨ok, job⟩, hr, rfl⟩ := Option.map_eq_some_iff.mp hs
    exact hnotify fun w hw => isReady_processData hw hc hr
  | dead tag =>
    cases hs
    exact hnotify fun w => isReady_markTagAsDead
  | subscribe tags =>
    obtain ⟨job, hj, rfl⟩ := Option.map_eq_some_iff.mp hs
    exact fun t w hw => isReady_subscribe (h t w hw) hj (hc t w hw)
  | call t call waiters =>
    have hnew : ∀ w ∈ (Thread.asking call waiters 0).found, s.job.isReady w = some true := by
      simp [Thread.found]
    simp only [step] at hs
    split at hs
    · cases hs
      exact h.update (fun _ _ _ hw => hw) hnew
    · cases hs
      exact h.update (fun _ _ _ hw => hw) hnew
    · cases hs
  | ask t => exact h.ask hs hc
  | wake t =>
    simp only [step] at hs
    split at hs
    · rename_i call waiters k ht
      cases hs
      exact h.update (fun _ _ _ hw => hw) fun w hw => h t w (ht ▸ hw)
    · cases hs
  | timeOut t =>
    simp only [step, timeOut] at hs
    split at hs
    · rename_i waiters k ht
      obtain ⟨w, hk, hs⟩ := Option.bind_eq_some_iff.mp hs
      obtain ⟨ready, hr, hs⟩ := Option.bind_eq_some_iff.mp hs
      cases hs
      refine h.update (fun _ _ _ hw => hw) fun v hv => ?_
      cases ready with
      | true =>
        rcases found_succ hk hv with hv | ⟨-, rfl⟩
        · exact h t v (ht ▸ hv)
        · exact hr
      | false => cases hv
    · cases hs

variable (α) in
theorem inv_inductive : ((lts α).restrict Cond).Inductive Inv where
  init s hs t w hw := by
    rw [hs t] at hw
    cases hw
  step _ _ _ h hst := inv_step h hst.1 hst.2

/-- **All at once.** In every run in which no value has the version of an empty
buffer, no renewal brings a connection id back to that of a waiter found ready,
and nobody takes the value of a tag that another has waited for: when `wait` has
returned, or `is_ready` with true, all of its waiters are ready at the same time,
although they were asked one after the other; and they stay so until the thread's
next call. -/
theorem all_ready (hs : ((lts α).restrict Cond).Reachable s) {t : Nat} {call : Call} {waiters : List Job.Waiter}
    (ht : s.threads t = .returned call waiters) (hc : call ≠ .get) : ∀ w ∈ waiters, s.job.isReady w = some true := by
  intro w hw
  refine (inv_inductive α).reachable s hs t w ?_
  rw [ht, Thread.found, if_neg hc]
  exact hw

end Ready

/-! ## Two tags, a value and a death -/

def twoTags : State Nat where
  job :=
    { bufs := ([⟨['a'], ⟨some {}, [], 0, .noError⟩⟩, ⟨['b'], ⟨some {}, [], 0, .noError⟩⟩] : List _).toAList
      lastPublishedVersion := ∅, tagsProduced := ∅ }
  threads _ := .running

def twoWaiters : List Job.Waiter := [⟨['a'], 0⟩, ⟨['b'], 0⟩]

/-- `wait` sleeps on "a", then on "b". -/
def twoSteps : List (Lbl Nat) :=
  [.call 0 .wait twoWaiters, .ask 0, .data ['a'] 7 0, .ask 0, .ask 0, .dead ['b'], .ask 0, .ask 0]

theorem cond_ask_wait {s : State Nat} {t : Nat} {waiters : List Job.Waiter} {k : Nat}
    (h : s.threads t = .asking .wait waiters k) : Cond s (.ask t) := by
  intro waiters' k' w hget
  cases h.symm.trans hget

/-- "b" is lost, not heard of. -/
theorem all_ready_two : ∃ s : State Nat, s.threads 0 = .returned .wait twoWaiters ∧
    ∀ w ∈ twoWaiters, s.job.isReady w = some true := by
  have hrun : ∃ s, ((lts Nat).restrict Cond).Run twoTags twoSteps s ∧ s.threads 0 = .returned .wait twoWaiters :=
    ⟨_, .cons ⟨rfl, trivial⟩ <| .cons ⟨rfl, cond_ask_wait rfl⟩ <|
      .cons ⟨rfl, show (0 : VersionID) ≠ tagNoData by decide⟩ <| .cons ⟨rfl, cond_ask_wait rfl⟩ <|
      .cons ⟨rfl, cond_ask_wait rfl⟩ <| .cons ⟨rfl, trivial⟩ <|
      .cons ⟨rfl, cond_ask_wait rfl⟩ <| .cons ⟨rfl, cond_ask_wait rfl⟩ <| .nil _, rfl⟩
  obtain ⟨s, hs, ht⟩ := hrun
  exact ⟨s, ht, all_ready ⟨twoTags, twoSteps, fun _ => rfl, hs⟩ ht (fun h => by cases h)⟩

end Skywing.L5.Wakeups
