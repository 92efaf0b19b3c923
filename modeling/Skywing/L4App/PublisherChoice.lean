import Skywing.L4App.CutOff
import Skywing.L4App.SearchSteps

/-!
# The publisher that is tried next

`init_connections_for_pending_tags` (`skywing_core/manager.cpp`) takes
`*publishers.begin()` for a pending tag. The error path of
`process_pending_conns` makes the tag pending again, "going to next one", but
the line that erased the publisher just taken is commented out, so which one
is next is up to the set alone.

`Attempt` is a choice that failed, with the run to the next choice for the
tag. Results:
* `other_publisher_iff`: the next choice is another publisher exactly when a
  report or a request that ignores the cache was handled in between and the
  last one left another publisher first.
* `retried`: a publisher that cannot be reached is chosen again.
-/
namespace Skywing.L4.PublisherChoice

open L3 L1.Text
open L3.Manager (Calm ConnEvent)
open L3.ExternalManager (markAsDead)
open CutOff (connected)
open GroupMembers (quietEnv machine initial_machine)

variable {V : Type}

/-! ## Choices -/

/-- `publishers_for_tag_[tag]` -/
def known (m : Manager V) (tag : TagID) : List PublisherInfo := (m.publishersForTag.lookup tag).getD []

/-- What `init_connections_for_pending_tags` takes for a tag.
mirrors skywing/skywing_core/manager.cpp:1240-1263 -/
structure Chooses (env : Env) (m : Manager V) (tag : TagID) (p : PublisherInfo) : Prop where
  pending : tag ∈ m.pendingTags
  notProduced : tag ∉ m.selfSubCount
  first : (env.order (known m tag)).head? = some p

/-- The neighbour at the address has another id.
mirrors skywing/skywing_core/manager.cpp:1269-1277 -/
def Mismatched (m : Manager V) (p : PublisherInfo) : Prop :=
  ∃ ptr e, m.addrToMachine.lookup (splitAddress p.address) = some ptr ∧ m.deref ptr = .ok e ∧ e.id ≠ p.machineId

/-- What ends in `handle_error`. -/
def fails : ConnEvent V → Bool
  | .failed | .readError | .badMessage => true
  | .message (.greeting _ _ _) _ => false
  | .message _ _ => true
  | .quiet | .connected _ => false

variable [Typed V]

/-- A connection for the tag that was not there at `m₀` takes the error
path. -/
def ConnectionFails (tag : TagID) (m₀ : Manager V) (after : Sys V) (ls : List (Label V)) : Prop :=
  ∃ before event env rest key todo new m info, ls = before ++ .conn event env :: rest ∧
    LTS.exec step after before = some (.running (.conns (key :: todo) new) m) ∧ key ∉ m₀.pendingConns ∧
    m.pendingConns.lookup key = some info ∧ (info.type = .subscription ∨ info.type = .reduceGroup) ∧
    tag ∈ split info.tag nul 0 ∧ fails event = true

/-- `p` is chosen for a tag and fails, and a choice for the tag comes next. -/
structure Attempt (V : Type) [Typed V] (tag : TagID) (p : PublisherInfo) where
  pc₀ : Pc
  m₀ : Manager V
  env₀ : Env
  after : Sys V
  ls : List (Label V)
  pc₁ : Pc
  m₁ : Manager V
  env₁ : Env
  reachable : (lts V).Reachable (.running pc₀ m₀)
  chosen : Chooses env₀ m₀ tag p
  made : step (.running pc₀ m₀) (.init env₀) = some after
  run : LTS.exec step after ls = some (.running pc₁ m₁)
  failed : Mismatched m₀ p ∨ ConnectionFails tag m₀ after ls
  enabled : (Label.init env₁ : Label V).enabled pc₁ m₁ = true
  pending : tag ∈ m₁.pendingTags
  notProduced : tag ∉ m₁.selfSubCount
  /-- the choice at `m₁` is the next one -/
  next : ∀ before env rest pc m p', ls = before ++ .init env :: rest →
    LTS.exec step after before = some (.running pc m) → ¬ Chooses env m tag p'
  two : 2 ≤ (known m₁ tag).length
  /-- the order is a function of the contents -/
  order : (known m₁ tag).Perm (known m₀ tag) → env₁.order (known m₁ tag) = env₀.order (known m₀ tag)

/-- The next choice is another known publisher. -/
def Attempt.Other {tag : TagID} {p : PublisherInfo} (a : Attempt V tag p) : Prop :=
  ∃ p', p' ≠ p ∧ Chooses a.env₁ a.m₁ tag p'

/-! ## What changes a set -/

/-- A report that names the tag, or a request that ignores the cache. -/
def changesKnown (tag : TagID) : Label V → Bool
  | .message (.reportPublishers tags _ _ locallyProducedTags) _ => tags.contains tag || locallyProducedTags.contains tag
  | .message (.getPublishers tags _ ignoreCache) _ => ignoreCache && tags.contains tag
  | _ => false

/-- The last message that changes the set leaves another publisher first. -/
def Attempt.Overtaken {tag : TagID} {p : PublisherInfo} (a : Attempt V tag p) : Prop :=
  ∃ before l rest pc m, a.ls = before ++ l :: rest ∧ changesKnown tag l = true ∧
    (∀ l' ∈ rest, changesKnown tag l' = false) ∧
    LTS.exec step a.after (before ++ [l]) = some (.running pc m) ∧ (a.env₁.order (known m tag)).head? ≠ some p

section Steps

variable {m m' : Manager V} {env : Env} {tag : TagID}

omit [Typed V]

theorem known_congr (tag : TagID) (h : m'.publishersForTag = m.publishersForTag) : known m' tag = known m tag := by
  rw [known, known, h]

theorem known_addPublishers {t : TagID} (infos : List PublisherInfo) (h : tag ≠ t) :
    known (m.addPublishers infos t) tag = known m tag := by
  rw [known, Manager.addPublishers, AList.lookup_insert_ne h]
  rfl

theorem known_markInCache (missing : List TagID) {ignoreCache : Bool}
    (h : ignoreCache = true → tag ∉ missing) : known (m.markInCache ignoreCache missing) tag = known m tag := by
  unfold known Manager.markInCache
  dsimp only
  generalize m.publishersForTag = cache
  induction missing generalizing cache with
  | nil => rfl
  | cons t missing ih =>
    rw [List.foldl_cons, ih fun hc => fun hm => h hc (List.mem_cons_of_mem t hm)]
    by_cases ht : tag = t
    · subst ht
      have hc : ignoreCache = false := Bool.eq_false_iff.mpr fun hc => h hc List.mem_cons_self
      rw [AList.lookup_insert, hc]
      rfl
    · rw [AList.lookup_insert_ne ht]

theorem known_handleGetPublishers (sender : ExternalManager V) (tags : List TagID) (needed : List UInt8)
    {ignoreCache : Bool} (h : (ignoreCache && tags.contains tag) = false) :
    (m.handleGetPublishers env sender tags needed ignoreCache).Ends (fun m' => known m' tag = known m tag)
      fun _ => True := by
  unfold Manager.handleGetPublishers
  refine .bind (P := fun remaining => ∀ t ∈ remaining.map Prod.fst, t ∈ tags) ?_ fun remaining hr => ?_
  · unfold Manager.removeTagsWithEnoughPublishers
    split
    · trivial
    · intro t ht
      obtain ⟨⟨t', n⟩, hmem, rfl⟩ := List.mem_map.mp ht
      exact (List.of_mem_zip (List.mem_filter.mp hmem).1).1
  · have hmark : known (m.markInCache ignoreCache (remaining.map (·.1))) tag = known m tag := by
      refine known_markInCache _ fun hc hmem => ?_
      rw [hc, Bool.true_and, List.contains_eq_mem, decide_eq_false_iff_not] at h
      exact h (hr tag hmem)
    dsimp only
    split
    · rfl
    split
    · exact hmark
    split
    · exact hmark
    · exact hmark

theorem known_addReported (sender : ExternalManager V) {tags : List TagID} (addresses : List (List Str))
    (machines : List (List MachineID)) {locallyProducedTags : List TagID} (ht : tag ∉ tags)
    (hl : tag ∉ locallyProducedTags) :
    (m.addPublishersAndPropagate env sender tags addresses machines locallyProducedTags).Ends
      (fun r => known r.1 tag = known m tag) fun _ => True := by
  unfold Manager.addPublishersAndPropagate
  split
  · exact rfl
  refine .bind (P := fun m' => known m' tag = known m tag) ?_ fun m₁ h₁ => ?_
  · refine .foldlM (I := fun _ m' => known m' tag = known m tag) rfl fun entry rest m' he h => ?_
    unfold Manager.addReported
    split
    · trivial
    · have hne : tag ≠ entry.1 := by
        rintro rfl
        exact ht (List.of_mem_zip he).1
      exact (known_addPublishers _ hne).trans h
  · have hlocal : ∀ (l : List TagID) (m' : Manager V), tag ∉ l →
        known (l.foldl (fun m t => m.addPublishers [⟨sender.address env (.publisher t), sender.id⟩] t) m') tag =
          known m' tag := by
      intro l
      induction l with
      | nil => exact fun _ _ => rfl
      | cons t l ih =>
        intro m' hno
        obtain ⟨hne, hno⟩ := List.ne_and_not_mem_of_not_mem_cons hno
        exact (ih _ hno).trans (known_addPublishers _ hne)
    refine (known_congr tag ?_).trans ((hlocal locallyProducedTags m₁ hl).trans h₁)
    rw [Manager.propagate_eq, (Manager.sendAll_eq _ _).1]
    rfl

variable [Typed V]

theorem handleMessage_known (sender : ExternalManager V) (msg : Message V)
    (h : changesKnown tag (.message msg env) = false) :
    (m.handleMessage env sender msg).Ends (fun r => known r.2 tag = known m tag) fun _ => True := by
  by_cases hs : msg.isReport = false ∧ ∀ tags needed ignore, msg ≠ .getPublishers tags needed ignore
  · exact (Manager.handleMessage_calm env sender hs.1 hs.2 m).mono (fun _ h => known_congr tag h.publishersForTag)
      fun _ _ => trivial
  unfold Manager.handleMessage
  cases msg with
  | reportPublishers tags addresses machines locallyProducedTags =>
    obtain ⟨ht, hl⟩ := Bool.or_eq_false_iff.mp h
    rw [List.contains_eq_mem, decide_eq_false_iff_not] at ht hl
    dsimp only
    split
    · exact rfl
    · refine .bind (known_addReported sender addresses machines ht hl) fun r hr => ?_
      split
      · exact hr
      · exact hr
  | getPublishers tags needed ignoreCache =>
    dsimp only
    split
    · exact rfl
    · exact .bind (known_handleGetPublishers sender tags needed h) fun _ hr => hr
  | _ => exact absurd ⟨rfl, nofun⟩ hs

theorem handleNext_known (id : MachineID) (todo : List MachineID) (msg : Message V)
    (h : changesKnown tag (.message msg env) = false) :
    (handleNext env id todo msg m).Ends (fun r => known r.2 tag = known m tag) fun _ => True := by
  unfold handleNext
  dsimp only
  split
  · trivial
  · rename_i sender hs
    refine .bind (handleMessage_known sender msg h) fun r hr => ?_
    obtain ⟨handled, m₁⟩ := r
    cases handled <;> exact hr

/-- Only a message changes what is known. -/
theorem act_known {l : Label V} {pc : Pc} (he : l.enabled pc m = true) (h : changesKnown tag l = false) :
    (act l pc m).Ends (fun r => known r.2 tag = known m tag) fun _ => True := by
  by_cases hl : l.calm pc = true
  · exact (act_calm hl).mono (fun _ h => known_congr tag h.publishersForTag) fun _ _ => trivial
  rcases Label.special_cases he (Bool.eq_false_iff.mpr hl) with ⟨msg, env, id, todo, rfl, rfl⟩ |
    ⟨env, id, todo, new, rfl, rfl⟩ | ⟨env, id, todo, rfl, rfl⟩ |
    ⟨env, key, todo, new, sender, neighbors, port, ip, info, rfl, rfl, hi⟩
  · exact handleNext_known id todo msg h
  · refine .bind ((Manager.removeNeighbor_cases id m).mono ?_ fun _ _ => trivial) fun r hr => hr
    intro r hor
    rcases hor with hc | ⟨e, m₁, -, -, hc₁, hc₂⟩
    · exact known_congr tag hc.publishersForTag
    · exact known_congr tag (hc₂.publishersForTag.trans hc₁.publishersForTag)
  · exact .bind (Manager.initConnections_calm m) fun m₁ h₁ => known_congr tag h₁.publishersForTag
  · have hg : (m.greet env sender neighbors port ip).2.publishersForTag = m.publishersForTag := by
      unfold Manager.greet
      split <;> rfl
    unfold act
    dsimp only
    rw [hi]
    have hp : (m.processConn env key info (.message (.greeting sender neighbors port) ip)).Ends
        (fun r => known r.1 tag = known m tag) fun _ => True :=
      .bind (Manager.handleGreeting_calm key info sender neighbors port ip m) fun m₁ h₁ =>
        known_congr tag (h₁.publishersForTag.trans hg)
    refine .bind hp fun r hr => ?_
    exact hr

theorem step_known {pc pc' : Pc} {l : Label V} (h : changesKnown tag l = false)
    (hs : step (.running pc m) l = some (.running pc' m')) : known m' tag = known m tag := by
  obtain ⟨he, ha⟩ := step_running hs
  exact (act_known he h).of_ok ha

end Steps

/-! ## Runs -/

/-- A run that goes on has not stopped before. -/
theorem running_of_exec {s : Sys V} {ls : List (Label V)} {pc : Pc} {m : Manager V}
    (h : LTS.exec step s ls = some (.running pc m)) : ∃ pc₀ m₀, s = .running pc₀ m₀ := by
  cases s with
  | running pc₀ m₀ => exact ⟨pc₀, m₀, rfl⟩
  | aborted a => cases ls <;> cases h

theorem exec_known {tag : TagID} : ∀ {ls : List (Label V)} {pc pc' : Pc} {m m' : Manager V},
    (∀ l ∈ ls, changesKnown tag l = false) → LTS.exec step (.running pc m) ls = some (.running pc' m') →
      known m' tag = known m tag
  | [], _, _, _, _, _, h => by
    cases h
    rfl
  | l :: ls, pc, pc', m, m', hls, h => by
    obtain ⟨hl, hls⟩ := List.forall_mem_cons.mp hls
    obtain ⟨s, hs, hrest⟩ := Option.bind_eq_some_iff.mp h
    obtain ⟨pc₁, m₁, rfl⟩ := running_of_exec hrest
    exact (exec_known hls hrest).trans (step_known hl hs)

/-- The last element with a property. -/
theorem exists_last {α : Type*} (q : α → Bool) : ∀ l : List α, (∀ a ∈ l, q a = false) ∨
    ∃ before a rest, l = before ++ a :: rest ∧ q a = true ∧ ∀ b ∈ rest, q b = false
  | [] => .inl nofun
  | a :: l => by
    rcases exists_last q l with hno | ⟨before, b, rest, rfl, hb, hrest⟩
    · cases ha : q a with
      | true => exact .inr ⟨[], a, l, rfl, ha, hno⟩
      | false => exact .inl (List.forall_mem_cons.mpr ⟨ha, hno⟩)
    · exact .inr ⟨a :: before, b, rest, rfl, hb, hrest⟩

/-- **Another publisher is tried next** exactly when a message has put it
first. -/
theorem other_publisher_iff {tag : TagID} {p : PublisherInfo} (a : Attempt V tag p) : a.Other ↔ a.Overtaken := by
  have hsplit {before rest : List (Label V)} {l : Label V} (hls : a.ls = before ++ l :: rest) :
      ∃ pc m, LTS.exec step a.after (before ++ [l]) = some (.running pc m) ∧
        LTS.exec step (.running pc m) rest = some (.running a.pc₁ a.m₁) := by
    have hrun := a.run
    rw [hls, List.append_cons, LTS.exec_append] at hrun
    obtain ⟨s, hs, hrest⟩ := Option.bind_eq_some_iff.mp hrun
    obtain ⟨pc, m, rfl⟩ := running_of_exec hrest
    exact ⟨pc, m, hs, hrest⟩
  constructor
  · intro hex
    obtain ⟨p', hne, hc⟩ := hex
    rcases exists_last (changesKnown tag) a.ls with hno | ⟨before, l, rest, hls, hl, hrest⟩
    · exfalso
      obtain ⟨pc, m, hafter⟩ := running_of_exec a.run
      have hsame : known a.m₁ tag = known a.m₀ tag := by
        have hrun := a.run
        rw [hafter] at hrun
        exact (exec_known hno hrun).trans (step_known rfl (a.made.trans (congrArg some hafter)))
      have hfirst := hc.first
      rw [a.order (hsame ▸ .refl _), a.chosen.first] at hfirst
      exact hne (Option.some.inj hfirst).symm
    · obtain ⟨pc, m, hx, hrun⟩ := hsplit hls
      refine ⟨before, l, rest, pc, m, hls, hl, hrest, hx, fun hfirst => ?_⟩
      have hfirst' := hc.first
      rw [exec_known hrest hrun, hfirst] at hfirst'
      exact hne (Option.some.inj hfirst').symm
  · intro hex
    obtain ⟨before, l, rest, pc, m, hls, -, hrest, hx, hfirst⟩ := hex
    obtain ⟨pc', m', hx', hrun⟩ := hsplit hls
    rw [hx] at hx'
    cases hx'
    rw [← exec_known hrest hrun] at hfirst
    cases hh : (a.env₁.order (known a.m₁ tag)).head? with
    | none =>
      have hlen := (a.env₁.order_perm (known a.m₁ tag)).length_eq
      rw [List.head?_eq_none_iff.mp hh] at hlen
      have htwo := a.two
      rw [← hlen] at htwo
      cases htwo
    | some p' => exact ⟨p', fun he => hfirst (he ▸ hh), a.pending, a.notProduced, hh⟩

/-! ## Two publishers, one of which cannot be reached -/

/-- A tag is subscribed to, and a neighbour reports who publishes it. -/
def told (addresses : List Str) (machines : List MachineID) : List (Label Nat) :=
  .subscribe [['p', 't']] quietEnv :: connected ++
    [.message (.reportPublishers [['p', 't']] [addresses] [machines] []) quietEnv]

/-- The next pass finds that the connection failed. -/
def refused : List (Label Nat) :=
  [.endMessages quietEnv, .remove quietEnv, .endPass quietEnv, .beginPass quietEnv, .conn .failed quietEnv,
    .endConns quietEnv]

def gone : PublisherInfo := ⟨['a', ':', '1'], ['x']⟩

def live : PublisherInfo := ⟨['b', ':', '2'], ['y']⟩

/-- The publisher that could not be reached is tried again. -/
theorem retried : ∃ a : Attempt Nat ['p', 't'] gone, ¬ a.Other := by
  obtain ⟨m₀, after, m, info, m₁, hx, hmade, hrun, hm, hbefore, hfree, hinfo, htype, htag, hpend₀, hprod₀, hpend₁,
      hprod₁, hknown₀, hknown₁⟩ : ∃ (m₀ : Manager Nat) (after : Sys Nat) (m : Manager Nat) (info : PendingInfo)
        (m₁ : Manager Nat),
      LTS.exec step machine (told [gone.address, live.address] [gone.machineId, live.machineId]) =
        some (.running (.reportInit ['c'] []) m₀) ∧
      step (.running (.reportInit ['c'] []) m₀) (.init quietEnv) = some after ∧
      LTS.exec step after refused = some (.running .connsInit m₁) ∧ known m ['p', 't'] = [gone, live] ∧
      LTS.exec step after (refused.take 4) = some (.running (.conns [(['a'], 1)] false) m) ∧
      m₀.pendingConns.lookup (['a'], 1) = none ∧ m.pendingConns.lookup (['a'], 1) = some info ∧
      info.type = .subscription ∧ split info.tag nul 0 = [['p', 't']] ∧ m₀.pendingTags = [['p', 't']] ∧
      m₀.selfSubCount.lookup ['p', 't'] = none ∧ m₁.pendingTags = [['p', 't']] ∧
      m₁.selfSubCount.lookup ['p', 't'] = none ∧ known m₀ ['p', 't'] = [gone, live] ∧
      known m₁ ['p', 't'] = [gone, live] :=
    ⟨_, _, _, _, _, rfl, rfl, rfl, rfl, rfl, rfl, rfl, rfl, rfl, rfl, rfl, rfl, rfl, rfl, rfl⟩
  refine ⟨⟨_, m₀, quietEnv, after, refused, _, m₁, quietEnv, LTS.reachable_of_exec initial_machine hx, ?_, hmade, hrun,
    .inr ⟨refused.take 4, .failed, quietEnv, [.endConns quietEnv], _, _, _, m, info, rfl, hbefore, ?_, hinfo,
      .inl htype, ?_, rfl⟩, rfl, ?_, ?_, ?_, ?_, fun _ => ?_⟩, ?_⟩
  · exact ⟨hpend₀ ▸ List.mem_singleton_self _, AList.lookup_eq_none.mp hprod₀, by rw [hknown₀]; rfl⟩
  · exact AList.lookup_eq_none.mp hfree
  · exact htag ▸ List.mem_singleton_self _
  · exact hpend₁ ▸ List.mem_singleton_self _
  · exact AList.lookup_eq_none.mp hprod₁
  · intro before env rest pc m p' hls
    have hmem : Label.init env ∈ refused := hls ▸ List.mem_append_right before List.mem_cons_self
    simp [refused] at hmem
  · rw [hknown₁]
    rfl
  · rw [hknown₀, hknown₁]
  · intro hex
    obtain ⟨p', hne, hc⟩ := hex
    have hfirst := hc.first
    dsimp only at hfirst
    rw [hknown₁] at hfirst
    exact hne (Option.some.inj hfirst).symm

/-- Not the id of the neighbour at that address. -/
def misnamed : PublisherInfo := ⟨['c', ':', '1'], ['x']⟩

/-- The neighbour has the set emptied and reports two other publishers. -/
def relearnt : List (Label Nat) :=
  [.message (.getPublishers [['p', 't']] [5] true) quietEnv,
    .message (.reportPublishers [['p', 't']] [[live.address, gone.address]] [[live.machineId, gone.machineId]] [])
      quietEnv]

theorem other_publisher_relearnt : ∃ a : Attempt Nat ['p', 't'] misnamed, a.Other := by
  obtain ⟨m₀, after, m₁, ptr, e, hx, hmade, hrun, haddr, hderef, hid, hpend₀, hprod₀, hpend₁, hprod₁, hknown₀,
      hknown₁⟩ : ∃ (m₀ : Manager Nat) (after : Sys Nat) (m₁ : Manager Nat) (ptr : Nat) (e : ExternalManager Nat),
      LTS.exec step machine (told [misnamed.address, live.address] [misnamed.machineId, live.machineId]) =
        some (.running (.reportInit ['c'] []) m₀) ∧
      step (.running (.reportInit ['c'] []) m₀) (.init quietEnv) = some after ∧
      LTS.exec step after relearnt = some (.running (.reportInit ['c'] []) m₁) ∧
      m₀.addrToMachine.lookup (splitAddress misnamed.address) = some ptr ∧ m₀.deref ptr = .ok e ∧ e.id = ['c'] ∧
      m₀.pendingTags = [['p', 't']] ∧ m₀.selfSubCount.lookup ['p', 't'] = none ∧ m₁.pendingTags = [['p', 't']] ∧
      m₁.selfSubCount.lookup ['p', 't'] = none ∧ known m₀ ['p', 't'] = [misnamed, live] ∧
      known m₁ ['p', 't'] = [live, gone] :=
    ⟨_, _, _, _, _, rfl, rfl, rfl, rfl, rfl, rfl, rfl, rfl, rfl, rfl, rfl, rfl⟩
  have hmismatched : Mismatched m₀ misnamed := by
    refine ⟨ptr, e, haddr, hderef, ?_⟩
    rw [hid]
    decide
  refine ⟨⟨_, m₀, quietEnv, after, relearnt, _, m₁, quietEnv, LTS.reachable_of_exec initial_machine hx, ?_, hmade, hrun,
    .inl hmismatched, rfl, ?_, ?_, ?_, ?_, fun hperm => ?_⟩, ?_⟩
  · exact ⟨hpend₀ ▸ List.mem_singleton_self _, AList.lookup_eq_none.mp hprod₀, by rw [hknown₀]; rfl⟩
  · exact hpend₁ ▸ List.mem_singleton_self _
  · exact AList.lookup_eq_none.mp hprod₁
  · intro before env rest pc m p' hls
    have hmem : Label.init env ∈ relearnt := hls ▸ List.mem_append_right before List.mem_cons_self
    simp [relearnt] at hmem
  · rw [hknown₁]
    rfl
  · rw [hknown₁, hknown₀] at hperm
    exact absurd hperm (by decide)
  · refine (other_publisher_iff _).mpr ⟨relearnt.take 1, _, [], _, m₁, rfl, rfl, nofun, hrun, ?_⟩
    dsimp only
    rw [hknown₁]
    decide

end Skywing.L4.PublisherChoice
