import Mathlib.Data.List.Induction
import Skywing.L3Protocol.ExternalManager

/-!
# The pauses between requests for tags

A neighbour that knows no publisher is asked again after a pause
(`ExternalManager`, `skywing_core/manager.cpp`), and each request without an
answer lengthens it: `increase_backoff_counter` counts the requests and
`calc_next_request_time` looks the pause up in a table whose last entry holds
from then on. The counter has eight bits and nothing stops it at its end, so
the 256th request in a row starts with the shortest pause again.

A record is followed through any calls of its methods (`Call`, `run`); all but
two of them leave the counter as it is.

Results:
* `backoffCounter_run`: after any calls the counter is the number of requests
  since the last reset, modulo 256.
* `backsOff_iff`: the pauses grow up to the largest one and stay there exactly
  as long as there are no 256 requests in a row.
-/
namespace Skywing.L3.ExternalManager

variable {V : Type}

/-! ## Calls -/

/-- What changes a record. -/
inductive Call (V : Type)
  | sendMessage (msg : Message V)
  | markAsDead
  | addCommunicator (conn : Str)
  | findPublishersForTags (tags : List TagID) (publishersNeeded : List UInt8)
  | ignoreCacheOnNextRequest
  | requestAnswered
  | sendHeartbeatIfPastInterval (interval : Nat)
  | hear (msg : Message V)
  | handleNewNeighbor (id : MachineID)
  | handleRemoveNeighbor (id : MachineID)
  | noteSubscriptions (tags : List TagID)
  | resetBackoffCounter
  | increaseBackoffCounter

def call (e : ExternalManager V) : Call V × Env → ExternalManager V
  | (.sendMessage msg, env) => e.sendMessage env msg
  | (.markAsDead, _) => e.markAsDead
  | (.addCommunicator conn, _) => e.addCommunicator conn
  | (.findPublishersForTags tags needed, env) => e.findPublishersForTags env tags needed
  | (.ignoreCacheOnNextRequest, _) => { e with ignoreCacheOnNextRequest := true }
  | (.requestAnswered, env) => e.requestAnswered env
  | (.sendHeartbeatIfPastInterval interval, env) => e.sendHeartbeatIfPastInterval env interval
  | (.hear msg, env) => e.hear env msg
  | (.handleNewNeighbor id, _) => e.handleNewNeighbor id
  | (.handleRemoveNeighbor id, _) => e.handleRemoveNeighbor id
  | (.noteSubscriptions tags, _) =>
    { e with remoteSubscriptions := (ExternalManager.noteSubscriptions e.remoteSubscriptions tags).1 }
  | (.resetBackoffCounter, env) => e.resetBackoffCounter env
  | (.increaseBackoffCounter, env) => e.increaseBackoffCounter env

/-- One call after the other. -/
def run (e : ExternalManager V) (calls : List (Call V × Env)) : ExternalManager V := calls.foldl call e

/-- The requests since the last reset. -/
def requestsSinceReset (calls : List (Call V × Env)) : Nat :=
  calls.foldl (fun n c => match c.1 with
    | .resetBackoffCounter => 0
    | .increaseBackoffCounter => n + 1
    | _ => n) 0

theorem run_concat (e : ExternalManager V) (calls : List (Call V × Env)) (c : Call V × Env) :
    e.run (calls ++ [c]) = (e.run calls).call c := List.foldl_concat ..

@[simp] theorem requestsSinceReset_increase (calls : List (Call V × Env)) (env : Env) :
    requestsSinceReset (calls ++ [(.increaseBackoffCounter, env)]) = requestsSinceReset calls + 1 :=
  List.foldl_concat ..

/-! ## The counter -/

theorem sendMessage_backoffCounter (env : Env) (msg : Message V) (e : ExternalManager V) :
    (e.sendMessage env msg).backoffCounter = e.backoffCounter := by
  rcases sendMessage_cases env e msg with ⟨d, hd⟩ | hs
  · rw [hd]
  · rw [hs]

theorem backoffCounter_call (e : ExternalManager V) (c : Call V × Env) :
    (e.call c).backoffCounter = match c.1 with
      | .resetBackoffCounter => 0
      | .increaseBackoffCounter => e.backoffCounter + 1
      | _ => e.backoffCounter := by
  obtain ⟨c, env⟩ := c
  cases c with
  | sendMessage msg => exact sendMessage_backoffCounter env msg e
  | findPublishersForTags tags needed =>
    simp only [call, findPublishersForTags]
    split
    · rfl
    · exact sendMessage_backoffCounter env _ e
  | sendHeartbeatIfPastInterval interval =>
    simp only [call, sendHeartbeatIfPastInterval]
    split
    · exact sendMessage_backoffCounter env _ e
    · rfl
  | handleNewNeighbor id =>
    simp only [call, handleNewNeighbor]
    split <;> rfl
  | handleRemoveNeighbor id =>
    simp only [call, handleRemoveNeighbor]
    split <;> rfl
  | _ => rfl

theorem backoffCounter_run {e : ExternalManager V} (he : e.backoffCounter = 0) (calls : List (Call V × Env)) :
    (e.run calls).backoffCounter = UInt8.ofNat (requestsSinceReset calls) := by
  induction calls using List.reverseRecOn with
  | nil => exact he
  | append_singleton calls c ih =>
    have hcount : requestsSinceReset (calls ++ [c]) = match c.1 with
        | .resetBackoffCounter => 0
        | .increaseBackoffCounter => requestsSinceReset calls + 1
        | _ => requestsSinceReset calls := List.foldl_concat ..
    rw [run_concat, backoffCounter_call, hcount, ih]
    obtain ⟨c, env⟩ := c
    cases c with
    | increaseBackoffCounter => exact (UInt8.ofNat_add _ 1).symm
    | _ => rfl

/-! ## The pause -/

/-- What `calc_next_request_time` adds to the time there is.
mirrors skywing/skywing_core/manager.cpp:370-371 -/
def addTime (e : ExternalManager V) : Nat :=
  if backoffTimes.length ≤ e.backoffCounter.toNat then backoffTimes.getLastD 0
  else backoffTimes.getD e.backoffCounter.toNat 0

theorem calcNextRequestTime_eq (env : Env) (e : ExternalManager V) :
    e.calcNextRequestTime env = env.now + e.addTime := rfl

/-- The table with its last entry repeated. -/
def pause (requests : Nat) : Nat :=
  if backoffTimes.length ≤ requests then backoffTimes.getLastD 0 else backoffTimes.getD requests 0

theorem pause_le_succ (n : Nat) : pause n ≤ pause (n + 1) := by
  by_cases hn : n < 10
  · have htable : ∀ n < 10, pause n ≤ pause (n + 1) := by decide
    exact htable n hn
  · have hlast : ∀ k, 10 ≤ k → pause k = 5000 := fun k hk => if_pos hk
    rw [hlast n (by omega), hlast (n + 1) (by omega)]

theorem largest_pause {n : Nat} (h : 10 ≤ n) : pause n ∈ backoffTimes ∧ ∀ t ∈ backoffTimes, t ≤ pause n := by
  have hlast : pause n = 5000 := if_pos h
  rw [hlast]
  decide

theorem addTime_run {e : ExternalManager V} (he : e.backoffCounter = 0) (calls : List (Call V × Env)) :
    (e.run calls).addTime = pause (requestsSinceReset calls % 256) := by
  rw [addTime, backoffCounter_run he, UInt8.toNat_ofNat']
  rfl

/-! ## What a neighbour can rely on -/

/-- At each request the pause is not shorter than before it, and it is the
largest one from the tenth request since the last reset on. -/
def BacksOff (e : ExternalManager V) (calls : List (Call V × Env)) : Prop :=
  ∀ before env after, calls = before ++ (.increaseBackoffCounter, env) :: after →
    let e₁ := e.run before
    let e₂ := e₁.increaseBackoffCounter env
    e₁.addTime ≤ e₂.addTime ∧ e₂.requestTagsTime = env.now + e₂.addTime ∧
      (10 ≤ requestsSinceReset before + 1 → e₂.addTime ∈ backoffTimes ∧ ∀ t ∈ backoffTimes, t ≤ e₂.addTime)

theorem addTime_increase {e : ExternalManager V} (he : e.backoffCounter = 0)
    (before : List (Call V × Env)) (env : Env) :
    ((e.run before).increaseBackoffCounter env).addTime = pause ((requestsSinceReset before + 1) % 256) := by
  rw [← requestsSinceReset_increase before env, ← addTime_run he, run_concat]
  rfl

/-- With 255 requests before it the next pause is the shortest one. -/
theorem not_backsOff_of_full {e : ExternalManager V} (he : e.backoffCounter = 0) {before after : List (Call V × Env)}
    {env : Env} (hn : requestsSinceReset before = 255) :
    ¬ e.BacksOff (before ++ (.increaseBackoffCounter, env) :: after) := by
  intro h
  have hle := (h before env after rfl).1
  rw [addTime_run he, addTime_increase he, hn] at hle
  exact absurd hle (by decide)

/-- **The pauses back off exactly as long as there are no 256 requests in a
row.** -/
theorem backsOff_iff (env : Env) (ptr : Nat) (conn : Str) (id : MachineID) (neighbors : List MachineID) (port : UInt16)
    (calls : List (Call V × Env)) :
    (create env ptr conn id neighbors port).BacksOff calls ↔
      ∀ before, before <+: calls → requestsSinceReset before < 256 := by
  have he : (create env ptr conn id neighbors port : ExternalManager V).backoffCounter = 0 := rfl
  constructor
  · intro h before
    induction before using List.reverseRecOn with
    | nil => exact fun _ => Nat.zero_lt_succ _
    | append_singleton before c ih =>
      intro hp
      obtain ⟨after, rfl⟩ := hp
      have hlt := ih ⟨c :: after, by simp⟩
      obtain ⟨c, env'⟩ := c
      cases c with
      | increaseBackoffCounter =>
        rw [requestsSinceReset_increase]
        by_contra hfull
        have hn : requestsSinceReset before = 255 := by omega
        rw [List.append_assoc, List.singleton_append] at h
        exact not_backsOff_of_full he hn h
      | resetBackoffCounter =>
        have hzero : requestsSinceReset (before ++ [(.resetBackoffCounter, env')]) = 0 := List.foldl_concat ..
        omega
      | _ =>
        refine lt_of_eq_of_lt ?_ hlt
        exact List.foldl_concat ..
  · intro h before env' after hcalls
    have hprefix : before ++ [(.increaseBackoffCounter, env')] <+: calls := ⟨after, by simp [hcalls]⟩
    have hlt := h _ hprefix
    rw [requestsSinceReset_increase] at hlt
    have hbefore := addTime_run he before
    have hafter := addTime_increase he before env'
    rw [Nat.mod_eq_of_lt (by omega)] at hbefore hafter
    dsimp only
    rw [hbefore, hafter]
    exact ⟨pause_le_succ _, by rw [← hafter]; rfl, largest_pause⟩

/-- 256 requests in a row. -/
theorem not_backsOff : ¬ ∀ (env : Env) (calls : List (Call UInt8 × Env)), (create env 0 [] [] [] 0).BacksOff calls := by
  intro h
  let env : Env := ⟨0, fun _ _ => .noError, fun _ _ => .connected, fun _ => none, fun l => l,
    fun _ => .rfl, fun _ _ => 0,
    fun _ _ => none⟩
  let request : Call UInt8 × Env := (.increaseBackoffCounter, env)
  have hcount : ∀ n, requestsSinceReset (List.replicate n request) = n := by
    intro n
    induction n with
    | zero => rfl
    | succ n ih => rw [List.replicate_succ', requestsSinceReset_increase, ih]
  exact not_backsOff_of_full rfl (hcount 255) (h env (List.replicate 255 request ++ [request]))

end Skywing.L3.ExternalManager
