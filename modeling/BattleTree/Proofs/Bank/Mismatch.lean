import BattleTree.Proofs.Bank.Batch
import BattleTree.Proofs.Observation.Acceptance

/-!
This module contains which contexts accept a view that another context observed. A view shows how
many rows its observer took for friends and for foes, and nothing else about the observer. So
contexts with the same teams on the same side accept each other's views, and so do contexts with
exchanged teams on different sides. All others refuse them, and then no tick is made.
-/

namespace BattleTree

theorem Bank.exists_rejected_of_mem {b : Bank} {members : List BatchMember} {m : BatchMember}
    (hm : m ∈ members) (h : m.context.check m.view ≠ .ok ()) :
    ∃ violation, b.tickBatch members = .error (.rejected violation) := by
  obtain ⟨r, hr⟩ := b.exists_batchAnswer members
  have htick := tickBatch_of_batchAnswer hr
  cases hr with
  | foreign | refused => exact ⟨_, htick⟩
  | decided _ hchecks _ => exact absurd (hchecks m hm) h

namespace Context

def Accepted (c : Context) : Prop :=
  ∃ env agent c₀ tick seed, ofAgent env agent = .ok c₀ ∧ c = c₀.atTick tick seed

def Akin (c c' : Context) : Prop :=
  c.agent.side = c'.agent.side ∧ c.env.allies = c'.env.allies ∧ c.env.enemies = c'.env.enemies

def Mirrors (c c' : Context) : Prop :=
  c.agent.side ≠ c'.agent.side ∧ c.env.allies = c'.env.enemies ∧ c.env.enemies = c'.env.allies

instance (c c' : Context) : Decidable (c.Akin c') :=
  inferInstanceAs (Decidable (_ ∧ _))

instance (c c' : Context) : Decidable (c.Mirrors c') :=
  inferInstanceAs (Decidable (_ ∧ _))

variable {c c' : Context} {data : Array Float32} {layout : Layout} {v : View}

theorem accepted_of_ofAgent (h : ofAgent c.env c.agent = .ok (c.atTick 0 0)) : c.Accepted :=
  ⟨c.env, c.agent, c.atTick 0 0, c.tick, c.seed, h, rfl⟩

theorem Accepted.env_valid (h : c.Accepted) : c.env.Valid := by
  obtain ⟨env, agent, c₀, tick, seed, hc₀, rfl⟩ := h
  obtain ⟨henv, -, rfl⟩ := ofAgent_eq_ok_iff.mp hc₀
  exact henv

theorem teamSizes_eq_iff :
    c.ownTeamSize = c'.ownTeamSize ∧ c.foeTeamSize = c'.foeTeamSize ↔
      c.Akin c' ∨ c.Mirrors c' := by
  unfold ownTeamSize foeTeamSize Environment.teamSize Akin Mirrors
  cases c.agent.side with
  | ally =>
    cases c'.agent.side with
    | ally => simp
    | enemy => simp
  | enemy =>
    cases c'.agent.side with
    | ally => simp [and_comm]
    | enemy => simp [and_comm]

theorem rows_eq_iff (hc : c.Accepted) (hc' : c'.Accepted) :
    c.friendRows = c'.friendRows ∧ c.foeRows = c'.foeRows ↔
      c.ownTeamSize = c'.ownTeamSize ∧ c.foeTeamSize = c'.foeTeamSize := by
  -- An accepted team has a member, so that its size can be told from the rows of the others.
  have hown := ownTeamSize_pos hc.env_valid
  have hown' := ownTeamSize_pos hc'.env_valid
  unfold friendRows foeRows
  rw [RowRange.mk.injEq, RowRange.mk.injEq]
  constructor
  · rintro ⟨⟨-, hstop⟩, -, hend⟩
    constructor <;> omega
  · rintro ⟨hown, hfoes⟩
    rw [hown, hfoes]
    exact ⟨⟨rfl, rfl⟩, rfl, rfl⟩

theorem check_observed_iff (hc : c.Accepted) (hc' : c'.Accepted)
    (h : c.observe data layout = .ok v) : c'.check v = .ok () ↔ c.Akin c' ∨ c.Mirrors c' := by
  obtain ⟨hfriends, hfoes⟩ := check_eq_ok_iff.mp (check_of_observe hc.env_valid h)
  rw [check_eq_ok_iff, hfriends, hfoes, rows_eq_iff hc hc', teamSizes_eq_iff]

theorem check_observed_eq_error (hc : c.Accepted) (h : c.observe data layout = .ok v)
    (hne : c'.check v ≠ .ok ()) :
    c'.check v = .error (.viewMismatch (c.ownTeamSize - 1) c.foeTeamSize (c'.ownTeamSize - 1)
      c'.foeTeamSize) := by
  obtain ⟨hfriends, hfoes⟩ := check_eq_ok_iff.mp (check_of_observe hc.env_valid h)
  rw [check_eq_error hne, hfriends, hfoes]
  unfold friendRows foeRows RowRange.size
  simp

theorem check_observed_spec (hc : c.Accepted) (hc' : c'.Accepted)
    (h : c.observe data layout = .ok v) :
    (c'.check v = .ok () ↔ c.Akin c' ∨ c.Mirrors c') ∧
      ∀ violation, c'.check v = .error violation →
        violation = .viewMismatch (c.ownTeamSize - 1) c.foeTeamSize (c'.ownTeamSize - 1)
          c'.foeTeamSize ∧
        (∀ n : Node, n.tick v c' = .error (.foreignView violation)) ∧
        (∀ g : Graph, g.tick v c' = .error (.foreignView violation) ∧
          g.tickExhaustive v c' = .error (.foreignView violation) ∧
          ∀ (σ : Type) [TraceSink σ] (sink : σ),
            g.tickTraced v c' sink = .error (.foreignView violation)) ∧
        ∀ (b : Bank) (members : List BatchMember) (m : BatchMember), m ∈ members → m.view = v →
          m.context = c' → ∃ first, b.tickBatch members = .error (.rejected first) := by
  refine ⟨check_observed_iff hc hc' h, ?_⟩
  intro violation hcheck
  have hne : c'.check v ≠ .ok () := by
    rw [hcheck]
    exact nofun
  have hviolation := check_observed_eq_error hc h hne
  rw [hcheck] at hviolation
  obtain ⟨hnodes, hgraphs⟩ := Graph.ticks_eq_error hcheck
  refine ⟨Except.error.inj hviolation, hnodes, hgraphs, ?_⟩
  rintro b members m hm rfl rfl
  exact Bank.exists_rejected_of_mem hm hne

def skirmish : Context :=
  { duel with env := .ofTerrain 2 3 .meadow }

def turned (c : Context) : Context :=
  { c with agent.side := .enemy }

end Context

def View.blank : View where
  data := Array.replicate (Layout.standard 2 3).length 0
  layout := .standard 2 3
  friends := 1
  layout_ok := by rfl
  size_eq := by rfl

namespace Context

theorem check_observed_spec_skirmish :
    skirmish.Accepted ∧ skirmish.turned.Accepted ∧
      skirmish.observe View.blank.data View.blank.layout = .ok .blank ∧
      skirmish.turned.check .blank = .error (.viewMismatch 1 3 2 2) ∧
      ¬(skirmish.Akin skirmish.turned ∨ skirmish.Mirrors skirmish.turned) := by
  have hc : skirmish.Accepted := accepted_of_ofAgent rfl
  have hc' : skirmish.turned.Accepted := accepted_of_ofAgent rfl
  have hview : skirmish.observe View.blank.data View.blank.layout = .ok .blank := by
    rfl
  have hcheck : skirmish.turned.check .blank = .error (.viewMismatch 1 3 2 2) := by
    rfl
  refine ⟨hc, hc', hview, hcheck, ?_⟩
  rw [← (check_observed_spec hc hc' hview).1, hcheck]
  exact nofun

theorem check_turned_duel :
    duel.Accepted ∧ duel.turned.Accepted ∧ duel.agent.side ≠ duel.turned.agent.side ∧
      duel.observe View.duel.data View.duel.layout = .ok .duel ∧
      duel.turned.check .duel = .ok () := by
  refine ⟨accepted_of_ofAgent rfl, accepted_of_ofAgent rfl, ?_, ?_, ?_⟩
  · exact nofun
  · rfl
  · rfl

end Context

end BattleTree
