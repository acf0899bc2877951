import Quorum.Proofs.Agent.Moves
import Quorum.Proofs.Application.Restart

/-!
# Peers on one gateway agree

Peers that start alike and take their blocks from one gateway apply the same blocks, each at its own
pace. What a peer has come to depends on the number of blocks it has applied, and on nothing else.

* `Agent.Applied` : an agent has applied the first blocks of a chain, one after the other;
* `Applied.proceeds` : its next step deals with the next block of the chain or with none;
* `Fleet.OnChain`, `OnChain.move` : every move keeps all agents of a fleet on the chain;
* `Fleet.Begins` : the agents start alike, where the gateway starts;
* `peers_agree` : agents at one height agree from then on, and one that falls behind stops.
-/

namespace Quorum

/-! ## One agent on a chain -/

namespace Agent

/-- The agent has applied the first `k` blocks of a chain to an application, one after the other,
and nothing else. -/
structure Applied (a : Agent) (x : Application) (chain : List Block) (k : Nat) : Prop where
  le : k ≤ chain.length
  app : a.app = x.afterBlocks (chain.take k)
  height : a.app.height.toNat = x.height.toNat + k
  nextHeight : a.nextHeight.toNat = a.app.height.toNat + 1
  inStep : a.InStep

/-- What the next step of an agent that has applied `k` blocks of a chain comes to. -/
inductive Proceeds (a : Agent) (chain : List Block) (k : Nat) : Agent → Prop
  | retains {a' : Agent} (same : a.Retains a') : Proceeds a chain k a'
  /-- The next block of the chain is applied. -/
  | applies {b : Block} {a' : Agent} (next : chain[k]? = some b) (applied : a.applyBlock b = .ok a') :
    Proceeds a chain k a'
  /-- The next block of the chain cannot be applied. -/
  | fails {b : Block} {e : FatalError} (next : chain[k]? = some b)
    (failed : a.applyBlock b = .error e) : Proceeds a chain k (a.fail (.fatal e))
  /-- The agent has fallen behind the blocks that are kept. -/
  | pruned (behind : k + Gateway.maxKept < chain.length) :
    Proceeds a chain k (a.fail (.gateway (.pruned a.nextHeight)))

variable {a a' : Agent} {x : Application} {chain : List Block} {k : Nat} {g : Gateway} {b : Block}

theorem Applied.mono (h : a.Applied x chain k) (bs : List Block) : a.Applied x (chain ++ bs) k where
  le := Nat.le_trans h.le (by rw [List.length_append]; exact Nat.le_add_right _ _)
  app := by rw [List.take_append_of_le_length h.le]; exact h.app
  height := h.height
  nextHeight := h.nextHeight
  inStep := h.inStep

theorem Applied.retains (h : a.Applied x chain k) (hr : a.Retains a') : a'.Applied x chain k where
  le := h.le
  app := hr.app.trans h.app
  height := by rw [hr.app]; exact h.height
  nextHeight := by rw [hr.app, hr.nextHeight]; exact h.nextHeight
  inStep := hr.inStep h.inStep

/-- The height of an agent says how many blocks it has applied, and these say the rest. -/
theorem Applied.app_eq {more : List Block} {l : Nat} (ha : a.Applied x chain k)
    (hb : a'.Applied x (chain ++ more) l) (h : a.app.height = a'.app.height) : a.app = a'.app := by
  have hk := ha.height
  have hl := hb.height
  rw [h] at hk
  obtain rfl : k = l := by omega
  rw [(ha.mono more).app, hb.app]

/-- **The block at the next height is the next block of the chain**, as long as it is kept. -/
theorem Applied.block?_eq (h : a.Applied x chain k) (hg : g.Holds x.height chain) :
    g.block? a.nextHeight =
      if k + Gateway.maxKept < chain.length then .error (.pruned a.nextHeight)
      else .ok chain[k]? := by
  have hnext : a.nextHeight.toNat = x.height.toNat + k + 1 := by rw [h.nextHeight, h.height]
  have hk : a.nextHeight.toNat - x.height.toNat - 1 = k := by omega
  rw [hg.block?_eq, hk]
  by_cases hbehind : k + Gateway.maxKept < chain.length
  · rw [if_pos (by omega), if_pos hbehind]
  · rw [if_neg (by omega), if_neg hbehind]

/-- **One more block.** -/
theorem Applied.applies (h : a.Applied x chain k) (hx : InOrder x.height.toNat chain)
    (hb : chain[k]? = some b) (ha : a.applyBlock b = .ok a') : a'.Applied x chain (k + 1) := by
  obtain ⟨o, hproc, hnext, hphase⟩ := of_applyBlock_eq_ok ha
  obtain ⟨hk, hget⟩ := List.getElem?_eq_some_iff.1 hb
  have hheight : a'.app.height.toNat = x.height.toNat + (k + 1) := by
    rw [(Application.processBlock_advances hproc).2]
    exact hx.height_of_getElem? hb
  refine ⟨hk, ?_, hheight, ?_, hphase h.inStep⟩
  · rw [List.take_succ_eq_append_getElem hk, hget, Application.afterBlocks_concat, ← h.app, hproc]
  · rw [hnext, h.nextHeight, h.height, hheight]
    rfl

/-- **The next step deals with the next block of the chain or with none.** -/
theorem Applied.proceeds (h : a.Applied x chain k) (hg : g.Holds x.height chain)
    (ht : a.Turn g a') : a.Proceeds chain k a' := by
  cases ht with
  | retains same => exact .retains same
  | applies _ block applied =>
    rw [h.block?_eq hg] at block
    split_ifs at block
    exact .applies (Except.ok.inj block) applied
  | fails _ block failed =>
    rw [h.block?_eq hg] at block
    split_ifs at block
    exact .fails (Except.ok.inj block) failed
  | refused _ block =>
    rw [h.block?_eq hg] at block
    split_ifs at block with hbehind
    cases block
    exact .pruned hbehind

theorem Applied.step (h : a.Applied x chain k) (hx : InOrder x.height.toNat chain)
    (hf : a.Proceeds chain k a') : ∃ k', a'.Applied x chain k' := by
  cases hf with
  | retains same => exact ⟨k, h.retains same⟩
  | applies next applied => exact ⟨k + 1, h.applies hx next applied⟩
  | pruned => exact ⟨k, h.retains (a.retains_phase nofun)⟩
  | @fails b e next failed =>
    -- the block is the next one, so whatever it fails for, it is not its height
    have horderly : Orderly (a.applyBlock b) :=
      orderly_applyBlock (by rw [h.height, hx.height_of_getElem? next])
    refine ⟨k, h.retains (a.retains_phase fun expected received he => ?_)⟩
    cases he
    exact horderly (expected, received) failed

theorem Applied.step_of_behind (h : a.Applied x chain k) {s : Scene}
    (hg : s.gateway.Holds x.height chain) (hserving : a.phase = .serving)
    (hrunning : a.app.isFinished = false) (hbehind : k + Gateway.maxKept < chain.length) :
    (a.step s).1 = a.fail (.gateway (.pruned a.nextHeight)) := by
  have hblock := h.block?_eq hg
  rw [if_pos hbehind] at hblock
  unfold Agent.step
  rw [hserving]
  unfold stepServing
  simp only [hrunning, hblock]
  rfl

end Agent

/-! ## All agents -/

namespace Fleet

/-- The agents are on one chain, which is the chain of the gateway. -/
structure OnChain (f : Fleet) (x : Application) (chain : List Block) : Prop where
  gateway : f.scene.gateway.Holds x.height chain
  agents : ∀ (i : Nat) (a : Agent), f.agents[i]? = some a → ∃ k, a.Applied x chain k

variable {f : Fleet} {x : Application} {chain : List Block}

/-- **Every move keeps the agents on the chain.** -/
theorem OnChain.move (h : f.OnChain x chain) (m : Move) :
    (f.move m).OnChain x (chain ++ f.commits m) where
  gateway := holds_move h.gateway m
  agents i a' ha' := by
    rw [getElem?_move] at ha'
    obtain ⟨a, ha, rfl⟩ := Option.map_eq_some_iff.1 ha'
    obtain ⟨k, hk⟩ := h.agents i a ha
    obtain ⟨k', hk'⟩ := hk.step h.gateway.inOrder (hk.proceeds h.gateway (a.moved_turn _ i m))
    exact ⟨k', hk'.mono _⟩

theorem OnChain.after (h : f.OnChain x []) (ms : List Move) :
    (f.after ms).OnChain x (f.committed ms) := by
  induction ms using List.reverseRecOn with
  | nil => exact h
  | append_singleton ms m ih =>
    rw [after_append, committed_concat]
    exact ih.move m

end Fleet

/-! ## Starting alike -/

/-- What an application starts as, fresh or from a checkpoint. -/
def Application.startingFrom (params : AppParams) : Option Checkpoint → Except FatalError Application
  | some c => restore params c
  | none => start params

theorem Application.height_of_startingFrom {params : AppParams} {from? : Option Checkpoint}
    {x : Application} (h : startingFrom params from? = .ok x) :
    x.height = (from?.map Checkpoint.height).getD Counter.zero := by
  have restored {table : Table} {c : Checkpoint} (h : restoreWith params table c = .ok x) :
      x.height = c.height := by
    obtain ⟨current, -, href⟩ := bind_eq_ok.1 h
    obtain ⟨bg, rfl⟩ := refreshBackground_of_ok href
    rfl
  cases from? with
  | some c =>
    obtain ⟨table, -, h⟩ := bind_eq_ok.1 h
    exact restored h
  | none =>
    obtain ⟨table, -, h⟩ := bind_eq_ok.1 h
    exact restored h

/-- An agent starts with the health check, as the first instance. -/
theorem Agent.create_eq_ok {config : AgentConfig} {from? : Option Checkpoint} {a : Agent}
    (h : create config from? = .ok a) : ∃ x nextHeight next check,
      Application.startingFrom config.app from? = .ok x ∧
      nextHeight.toNat = x.height.toNat + 1 ∧ next.toNat = 1 ∧
      check.instanceId = Counter.zero ∧ a = {
        config := { config with keep := max config.keep 1 }
        app := x
        phase := .starting check
        info := infoOf x
        snapshot := x.data
        nextInstance := next
        nextHeight } := by
  unfold create at h
  split at h
  · cases h
  have happ : ((Application.startingFrom config.app from?).bind (ofApplication
      { config with keep := max config.keep 1 })).mapError AgentError.fatal = .ok a := by
    cases from? <;> exact h
  cases hx : Application.startingFrom config.app from? with
  | error e =>
    rw [hx] at happ
    cases happ
  | ok x =>
    rw [hx] at happ
    change (ofApplication _ x).mapError _ = _ at happ
    unfold ofApplication at happ
    split at happ
    · cases happ
    rename_i nextHeight hnext
    simp only at happ
    generalize hserving : Agent.mk _ _ _ _ _ _ _ _ _ _ _ _ _ _ _ = serving at happ
    cases hengage : serving.engage .healthcheck with
    | error e =>
      rw [hengage] at happ
      cases happ
    | ok p =>
      obtain ⟨a₁, check⟩ := p
      rw [hengage] at happ
      cases happ
      obtain ⟨next, hcount, rfl, hi, -⟩ := engage_eq_ok hengage
      subst hserving
      exact ⟨x, nextHeight, next, check, rfl, Counter.next?_eq_some.1 hnext, hcount, hi, rfl⟩

namespace Fleet

/-- The agents start alike, where the gateway starts. -/
structure Begins (f : Fleet) (params : AppParams) (from? : Option Checkpoint) : Prop where
  gateway : f.scene.gateway = Gateway.start ((from?.map Checkpoint.height).getD Counter.zero)
  agents : ∀ a ∈ f.agents, ∃ config a₀ store stoppable, config.app = params ∧
    Agent.create config from? = .ok a₀ ∧ a = { a₀ with store, stoppable }

variable {f : Fleet} {params : AppParams} {from? : Option Checkpoint} {x : Application}

theorem Begins.onChain (h : f.Begins params from?)
    (hx : Application.startingFrom params from? = .ok x) : f.OnChain x [] where
  gateway := by
    rw [h.gateway, ← Application.height_of_startingFrom hx]
    exact Gateway.holds_start _
  agents i a ha := by
    obtain ⟨config, a₀, store, stoppable, rfl, hcreate, rfl⟩ := h.agents a (List.mem_of_getElem? ha)
    obtain ⟨x', nextHeight, next, check, hx', hnext, -, -, rfl⟩ := Agent.create_eq_ok hcreate
    obtain rfl : x = x' := Except.ok.inj (hx.symm.trans hx')
    exact ⟨0, Nat.le_refl 0, rfl, rfl, hnext, nofun⟩

/-- If there is an agent, there is an application that all agents have started from. -/
theorem Begins.exists_start (h : f.Begins params from?) {ms : List Move} {i : Nat} {a : Agent}
    (ha : (f.after ms).agents[i]? = some a) :
    ∃ x, Application.startingFrom params from? = .ok x := by
  have hlt : i < f.agents.length := f.length_after ms ▸ (List.getElem?_eq_some_iff.1 ha).1
  obtain ⟨config, a₀, -, -, rfl, hcreate, -⟩ := h.agents f.agents[i] (List.getElem_mem hlt)
  obtain ⟨x, -, -, -, hx, -⟩ := Agent.create_eq_ok hcreate
  exact ⟨x, hx⟩

/-- What a peer has come to depends on its height only, at whatever moments it is looked at. -/
theorem Begins.checkpoint_eq (h : f.Begins params from?) (ms later : List Move) {a b : Agent}
    (ha : a ∈ (f.after ms).agents) (hb : b ∈ (f.after (ms ++ later)).agents)
    (heq : a.app.height = b.app.height) : a.app.checkpoint = b.app.checkpoint := by
  obtain ⟨i, hi⟩ := List.mem_iff_getElem?.1 ha
  obtain ⟨j, hj⟩ := List.mem_iff_getElem?.1 hb
  obtain ⟨x, hx⟩ := h.exists_start hi
  obtain ⟨k, hk⟩ := ((h.onChain hx).after ms).agents i a hi
  obtain ⟨l, hl⟩ := ((h.onChain hx).after (ms ++ later)).agents j b hj
  rw [committed_append] at hl
  exact congrArg Application.checkpoint (hk.app_eq hl heq)

/-- **Peers on one gateway agree.** Whatever happens among peers that have started alike, and in
whatever order, two of them that have applied blocks up to the same height have the same checkpoint,
at whatever moments that is. Each has applied the first blocks of the chain, one after the other, and
nothing else, and none has failed because a block was out of order. At its next height it is given
the next block of the chain, as long as that is kept. Once a peer has fallen behind the blocks that
are kept, its next step stops it for good. -/
theorem peers_agree (h : f.Begins params from?) (ms : List Move) :
    (∀ later, ∀ a ∈ (f.after ms).agents, ∀ b ∈ (f.after (ms ++ later)).agents,
      a.app.height = b.app.height → a.app.checkpoint = b.app.checkpoint) ∧
    ∀ i a, (f.after ms).agents[i]? = some a → ∃ x k,
      Application.startingFrom params from? = .ok x ∧ a.Applied x (f.committed ms) k ∧
      (f.after ms).scene.gateway.block? a.nextHeight =
        (if k + Gateway.maxKept < (f.committed ms).length then .error (.pruned a.nextHeight)
        else .ok (f.committed ms)[k]?) ∧
      a.Proceeds (f.committed ms) k (a.step (f.after ms).scene).1 ∧
      (a.phase = .serving → a.app.isFinished = false →
        k + Gateway.maxKept < (f.committed ms).length → ∀ later, ∃ a',
          (f.after (ms ++ .acts i .steps :: later)).agents[i]? = some a' ∧
          a'.phase = .stopped (.error (.gateway (.pruned a.nextHeight))) ∧ a'.app = a.app) := by
  refine ⟨fun later a ha b hb => h.checkpoint_eq ms later ha hb, fun i a ha => ?_⟩
  obtain ⟨x, hx⟩ := h.exists_start ha
  have hchain := (h.onChain hx).after ms
  obtain ⟨k, hk⟩ := hchain.agents i a ha
  refine ⟨x, k, hx, hk, hk.block?_eq hchain.gateway, hk.proceeds hchain.gateway (a.step_turn _),
    fun hserving hrunning hbehind later => ?_⟩
  have hnext : ((f.after ms).move (.acts i .steps)).agents[i]? =
      some (a.fail (.gateway (.pruned a.nextHeight))) := by
    rw [getElem?_move, ha, ← hk.step_of_behind hchain.gateway hserving hrunning hbehind]
    simp only [Agent.moved, Agent.act, if_true, Option.map_some]
  obtain ⟨a', ha', hphase, happ⟩ := stopped_after hnext rfl later
  refine ⟨a', ?_, hphase, happ⟩
  rw [after_append]
  exact ha'

/-! ## A pair of peers -/

/-- Two peers that start afresh. -/
def pair : Fleet where
  scene := { gateway := Gateway.start Counter.zero, world := { beacon := { seed := Octets.zero } } }
  agents := [1, 2].filterMap fun key => (Agent.create {
    key := ⟨Bytes.ofNatBE 32 key, Bytes.length_ofNatBE 32 key⟩
    app := Application.pairParams } none).toOption

theorem begins_pair : pair.Begins Application.pairParams none where
  gateway := rfl
  agents a ha := by
    obtain ⟨key, -, ha⟩ := List.mem_filterMap.1 ha
    generalize hconfig : AgentConfig.mk _ _ _ _ = config at ha
    cases hcreate : Agent.create config none with
    | error e =>
      rw [hcreate] at ha
      cases ha
    | ok a₀ =>
      rw [hcreate] at ha
      cases ha
      exact ⟨config, a, a.store, a.stoppable, hconfig ▸ rfl, hcreate, rfl⟩

/-- A block is committed, and the peers apply it, one after the other. -/
def inTurn : List Move :=
  [.produces, .acts 0 .steps, .acts 0 .steps, .acts 1 .steps, .acts 1 .steps]

/-- The first peer gets ready, and more blocks than are kept are committed. -/
def leftBehind : List Move := [.acts 0 .steps] ++ List.replicate (Gateway.maxKept + 1) .produces

theorem agents_after_produces (f : Fleet) (n : Nat) :
    (f.after (List.replicate n .produces)).agents = f.agents := by
  induction n generalizing f with
  | zero => rfl
  | succ n ih => exact (ih (f.move .produces)).trans (f.agents_move nofun)

/-- Both peers apply the first block, or the first one stays behind and stops. -/
theorem peers_agree_of_pair :
    (∃ a b, (pair.after inTurn).agents = [a, b] ∧ a.app.height.toNat = 1 ∧
      a.app.checkpoint = b.app.checkpoint) ∧
    ∃ a, (pair.after (leftBehind ++ [.acts 0 .steps])).agents[0]? = some a ∧
      a.phase = .stopped (.error (.gateway (.pruned (Counter.ofNat 1)))) ∧
      a.app.height.toNat = 0 := by
  constructor
  · obtain ⟨a, b, hab, ha, hb⟩ : ∃ a b, (pair.after inTurn).agents = [a, b] ∧
        a.app.height.toNat = 1 ∧ b.app.height.toNat = 1 := ⟨_, _, rfl, rfl, rfl⟩
    have hagree := (peers_agree begins_pair inTurn).1 []
    rw [List.append_nil, hab] at hagree
    exact ⟨a, b, hab, ha, hagree a (by simp) b (by simp) (Counter.toNat_inj.1 (ha.trans hb.symm))⟩
  · obtain ⟨a, ha, hserving, hrunning, hheight⟩ : ∃ a, (pair.after leftBehind).agents[0]? = some a ∧
        a.phase = .serving ∧ a.app.isFinished = false ∧ a.app.height.toNat = 0 := by
      rw [leftBehind, after_append, agents_after_produces]
      exact ⟨_, rfl, rfl, rfl, rfl⟩
    have hlength : (pair.committed leftBehind).length = Gateway.maxKept + 1 := by decide +kernel
    obtain ⟨x, k, -, hk, -, -, hstops⟩ := (peers_agree begins_pair leftBehind).2 0 a ha
    have hk0 : k = 0 := by
      have := hk.height
      omega
    have hnext : a.nextHeight = Counter.ofNat 1 :=
      Counter.toNat_inj.1 (hk.nextHeight.trans (congrArg (· + 1) hheight))
    obtain ⟨a', ha', hphase, happ⟩ := hstops hserving hrunning (by omega) []
    exact ⟨a', ha', hnext ▸ hphase, happ ▸ hheight⟩

end Fleet

end Quorum
