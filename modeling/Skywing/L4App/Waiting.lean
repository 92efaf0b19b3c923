import Skywing.L4App.SearchSteps

/-!
# Who waits for a reply

A neighbour waits when a request from it was handled and it has been sent no
report since, on the connection it has now. The manager keeps no such thing
(`skywing_core/manager.cpp`): `waits` reads it off the messages that a step
handled and sent.

Results:
* `waits_heard`: after a message, whoever was sent a report waits no more, and
  the sender of a request waits unless it was.
* `Numbered`: records are told apart by their pointers, which the loop over
  the other neighbours depends on.
-/
namespace Skywing.L3

/-! ## Records -/

/-- Neighbours are found under their ids, and no two records have one number. -/
structure Manager.Numbered {V : Type} (m : Manager V) : Prop where
  keyed : m.Keyed
  lt : ∀ id e, m.neighbors.lookup id = some e → e.ptr < m.nextPtr
  inj : ∀ id id' e e', m.neighbors.lookup id = some e → m.neighbors.lookup id' = some e' → e.ptr = e'.ptr → id = id'

namespace Manager.Numbered

variable {V : Type} {m m₁ : Manager V} {env : Env}

/-- The records are among those there were. -/
theorem of_lookup (hm : m.Numbered) (hx : m₁.nextPtr = m.nextPtr)
    (h : ∀ id e', m₁.neighbors.lookup id = some e' →
      ∃ e, m.neighbors.lookup id = some e ∧ e'.ptr = e.ptr ∧ e'.id = e.id) : m₁.Numbered where
  keyed id e' he' := by
    obtain ⟨e, he, -, hid⟩ := h id e' he'
    exact hid.trans (hm.keyed id e he)
  lt id e' he' := by
    obtain ⟨e, he, hp, -⟩ := h id e' he'
    rw [hp, hx]
    exact hm.lt id e he
  inj id id' e e' he he' hptr := by
    obtain ⟨e₀, he₀, hp₀, -⟩ := h id e he
    obtain ⟨e₁, he₁, hp₁, -⟩ := h id' e' he'
    exact hm.inj id id' e₀ e₁ he₀ he₁ (by rw [← hp₀, ← hp₁, hptr])

theorem calm (hm : m.Numbered) (h : Calm m m₁) : m₁.Numbered :=
  hm.of_lookup h.nextPtr fun _ _ he' => by
    obtain ⟨e, he, hR⟩ := h.neighbors.of_lookup he'
    exact ⟨e, he, hR.ptr, hR.id⟩

theorem replies {who : MachineID → Bool} (hm : m.Numbered) (h : Replies who m m₁) : m₁.Numbered :=
  hm.of_lookup h.nextPtr fun _ _ he' => by
    obtain ⟨e, he, hR⟩ := h.of_lookup he'
    exact ⟨e, he, hR.ptr, hR.id⟩

theorem atNeighbor (hm : m.Numbered) {f : ExternalManager V → ExternalManager V}
    (hf : ∀ e, (f e).ptr = e.ptr ∧ (f e).id = e.id) (id : MachineID) : (m.atNeighbor id f).Numbered :=
  hm.of_lookup rfl fun key e' he' => by
    obtain ⟨e, he, rfl⟩ := Manager.of_lookup_atNeighbor he'
    refine ⟨e, he, ?_⟩
    split
    · exact hf e
    · exact ⟨rfl, rfl⟩

theorem erase (hm : m.Numbered) (id : MachineID) (removed : List (ExternalManager V)) :
    { m with neighbors := m.neighbors.erase id, removed := removed }.Numbered :=
  hm.of_lookup rfl fun key e' he' => by
    change (m.neighbors.erase id).lookup key = some e' at he'
    by_cases hk : key = id
    · subst hk
      rw [AList.lookup_erase] at he'
      cases he'
    · rw [AList.lookup_erase_ne hk] at he'
      exact ⟨e', he', rfl, rfl⟩

theorem greet (hm : m.Numbered) (sender : MachineID) (neighbors : List MachineID) (port : UInt16) (ip : Str) :
    (m.greet env sender neighbors port ip).2.Numbered := by
  unfold Manager.greet
  cases he : m.neighbors.lookup sender with
  | some e₀ => exact hm.atNeighbor (f := ExternalManager.addCommunicator ip) (fun e => ⟨rfl, rfl⟩) sender
  | none =>
    have hid : (ExternalManager.create (V := V) env m.nextPtr ip sender neighbors port).id = sender := rfl
    have hnew (key : MachineID) (e' : ExternalManager V)
        (h : (m.neighbors.insert sender (ExternalManager.create env m.nextPtr ip sender neighbors port)).lookup key =
          some e') : key = sender ∧ e'.ptr = m.nextPtr ∨ m.neighbors.lookup key = some e' := by
      by_cases hk : key = sender
      · subst hk
        rw [AList.lookup_insert] at h
        cases h
        exact .inl ⟨rfl, rfl⟩
      · rw [AList.lookup_insert_ne hk] at h
        exact .inr h
    refine ⟨fun key e' h => hm.keyed.insert hid h, fun key e' h => ?_, fun key key' e e' h h' hptr => ?_⟩
    · show e'.ptr < m.nextPtr + 1
      rcases hnew key e' h with ⟨-, hp⟩ | h
      · omega
      · exact Nat.lt_succ_of_lt (hm.lt key e' h)
    · rcases hnew key e h with ⟨hk, hp⟩ | hold <;> rcases hnew key' e' h' with ⟨hk', hp'⟩ | hold'
      · rw [hk, hk']
      · have hlt := hm.lt key' e' hold'
        omega
      · have hlt := hm.lt key e hold
        omega
      · exact hm.inj key key' e e' hold hold' hptr

end Manager.Numbered

namespace ExternalManager

variable {V : Type}

def reportsSent (e : ExternalManager V) : Nat := e.sent.countP Message.isReport

def requestsHandled (e : ExternalManager V) : Nat := e.handled.countP Message.isRequest

theorem requestsHandled_hear (env : Env) (msg : Message V) (e : ExternalManager V) :
    (e.hear env msg).requestsHandled = e.requestsHandled + (Message.isRequest msg).toNat := by
  unfold requestsHandled hear
  rw [List.countP_append]
  cases hq : Message.isRequest msg <;> simp [hq]

namespace Unreported

variable {e e' : ExternalManager V}

theorem reportsSent (h : Unreported e e') : e'.reportsSent = e.reportsSent := by
  obtain ⟨msgs, hn, hs, -⟩ := h.sent
  have hzero : msgs.countP Message.isReport = 0 := by
    rw [List.countP_eq_zero]
    intro msg hm
    simp [hn msg hm]
  rw [ExternalManager.reportsSent, hs, List.countP_append, hzero]
  rfl

theorem requestsHandled (h : Unreported e e') : e'.requestsHandled = e.requestsHandled := by
  rw [ExternalManager.requestsHandled, h.handled]
  rfl

theorem live (h : Unreported e e') (hlive : e'.dead = false) : e.dead = false := by
  by_contra hd
  rw [h.dead (by simpa using hd)] at hlive
  cases hlive

end Unreported

theorem Replied.live {e e' : ExternalManager V} {who : Bool} (h : Replied who e e') (hlive : e'.dead = false) :
    e.dead = false := by
  by_contra hd
  rw [h.dead (by simpa using hd)] at hlive
  cases hlive

end ExternalManager

end Skywing.L3

namespace Skywing.L4

open L3
open L3.Manager (Calm Replies)

variable {V : Type} {m m₁ m₂ : Manager V} {env : Env} {w : MachineID → Bool}

/-! ## Waiting -/

/-- Who waits after a step from `m` to `m'`, where `w` waited before. -/
def waits (m m' : Manager V) (w : MachineID → Bool) (id : MachineID) : Bool :=
  match m.neighbors.lookup id, m'.neighbors.lookup id with
  | some e, some e' =>
    if e.reportsSent < e'.reportsSent then false else w id || decide (e.requestsHandled < e'.requestsHandled)
  | _, _ => false

theorem waits_eq {id : MachineID} {e e' : ExternalManager V} (he : m.neighbors.lookup id = some e)
    (he' : m₁.neighbors.lookup id = some e') :
    waits m m₁ w id = if e.reportsSent < e'.reportsSent then false
      else w id || decide (e.requestsHandled < e'.requestsHandled) := by
  unfold waits
  rw [he, he']

theorem waits_of_new {id : MachineID} (h : m.neighbors.lookup id = none) : waits m m₁ w id = false := by
  unfold waits
  rw [h]

/-- Neither a report was sent nor a request handled. -/
theorem waits_same {id : MachineID} {e e' : ExternalManager V} (he : m.neighbors.lookup id = some e)
    (he' : m₁.neighbors.lookup id = some e') (hr : e'.reportsSent = e.reportsSent)
    (hq : e'.requestsHandled = e.requestsHandled) : waits m m₁ w id = w id := by
  rw [waits_eq he he', hr, hq]
  simp

theorem waits_replies {who : MachineID → Bool} (h : Replies who m m₁) {id : MachineID} {e e' e₀ : ExternalManager V}
    (he : m.neighbors.lookup id = some e) (he' : m₁.neighbors.lookup id = some e') (hlive : e'.dead = false)
    (he₀ : m₂.neighbors.lookup id = some e₀) (hsent : e₀.sent = e.sent) :
    (who id = true → waits m₂ m₁ w id = false) ∧
      (who id = false → waits m₂ m₁ w id = (w id || decide (e₀.requestsHandled < e.requestsHandled))) := by
  rcases h.lookup id with ⟨hn, -⟩ | ⟨e₁, e₁', h₁, h₁', hR⟩
  · rw [hn] at he
    cases he
  rw [he] at h₁
  rw [he'] at h₁'
  cases h₁
  cases h₁'
  obtain ⟨msgs, hs, hc, ha, -⟩ := hR.sent
  have hreports : e'.reportsSent = e₀.reportsSent + msgs.countP Message.isReport := by
    rw [ExternalManager.reportsSent, hs, List.countP_append, ExternalManager.reportsSent, hsent]
  have hrequests : e'.requestsHandled = e.requestsHandled := by
    rw [ExternalManager.requestsHandled, hR.handled, ExternalManager.requestsHandled]
  rw [waits_eq he₀ he', hrequests]
  refine ⟨fun hw => if_pos ?_, fun hw => if_neg ?_⟩
  · rcases ha hw with hd | hn
    · rw [hlive] at hd
      cases hd
    · omega
  · rw [hw] at hc
    simp only [Bool.toNat_false] at hc
    omega

/-- A calm step makes nobody wait. -/
theorem waits_calm (h : Calm m m₁) {id : MachineID} {e' : ExternalManager V}
    (he' : m₁.neighbors.lookup id = some e') : waits m m₁ w id = w id := by
  obtain ⟨e, he, hR⟩ := h.neighbors.of_lookup he'
  exact waits_same he he' hR.reportsSent hR.requestsHandled

/-- After a message from `id`. -/
theorem waits_heard {who : MachineID → Bool} {id : MachineID} {msg : Message V}
    (h : Replies who (m.atNeighbor id (·.hear env msg)) m₁) {key : MachineID} {e' : ExternalManager V}
    (he' : m₁.neighbors.lookup key = some e') (hlive : e'.dead = false) :
    (who key = true → waits m m₁ w key = false) ∧
      (who key = false → waits m m₁ w key = (w key || (decide (key = id) && Message.isRequest msg))) := by
  obtain ⟨e, he, -⟩ := h.of_lookup he'
  obtain ⟨e₀, he₀, heq⟩ := Manager.of_lookup_atNeighbor he
  have hsent : e₀.sent = e.sent := by
    rw [heq]
    split <;> rfl
  have hdec : decide (e₀.requestsHandled < e.requestsHandled) = (decide (key = id) && Message.isRequest msg) := by
    rw [heq]
    by_cases hk : key = id
    · rw [if_pos hk, ExternalManager.requestsHandled_hear]
      cases Message.isRequest msg <;> simp [hk]
    · rw [if_neg hk]
      simp [hk]
  rw [← hdec]
  exact waits_replies h he he' hlive he₀ hsent

end Skywing.L4
