import BattleTree.Proofs.Graph.Visibility
import BattleTree.Proofs.Scene.Aim
import BattleTree.Proofs.Scene.Members

/-!
This module contains that the order of the rows of a team carries no meaning for leaves that do not
choose a row: trees of such leaves come to the same decision on a view with the rows of each team in
another order.
-/

namespace BattleTree

namespace View

structure Rearranges (v v' : View) : Prop where
  layout_eq : v.layout = v'.layout
  friends_eq : v.friends = v'.friends
  own_eq : v.ownSegment = v'.ownSegment
  rows_perm : ∀ team, List.Perm ((v.teamRows team).toList.map v.rowSegment)
    ((v'.teamRows team).toList.map v'.rowSegment)

theorem Rearranges.check_eq {v v' : View} (h : v.Rearranges v') (c : Context) :
    c.check v' = c.check v := by
  unfold Context.check friendRows foeRows
  rw [h.layout_eq, h.friends_eq]

end View

namespace Scene

section

variable {s s' : Scene} {v v' : View} {c : Context}

theorem Depicts.mem_readings_iff (hs : s.Depicts v c) (hcheck : c.check v = .ok ()) {team : Team}
    {reading : Reading} :
    reading ∈ (s.team team).map Row.toReading ↔
      reading.health > 0 ∧ ∃ segment ∈ (v.teamRows team).toList.map v.rowSegment,
        segment.Reads v.layout v.layout.otherCooldown reading := by
  have hstop : (v.teamRows team).stop ≤ v.rowCount := by
    cases team with
    | foe => exact Nat.le_refl _
    | friend => exact Context.friends_le_of_check hcheck
  rw [List.mem_map]
  constructor
  · rintro ⟨row, hrow, rfl⟩
    obtain ⟨i, hstart, hlt, hread, halive⟩ := exists_row_of_mem (hs.team_eq team) hrow
    refine ⟨of_decide_eq_true halive, _,
      List.mem_map_of_mem (RowRange.mem_toList.mpr ⟨hstart, hlt⟩), ?_⟩
    exact ((View.row_eq_ok_iff_reads (Nat.lt_of_lt_of_le hlt hstop)).mp hread).2
  · rintro ⟨halive, segment, hsegment, hreads⟩
    obtain ⟨i, hi, rfl⟩ := List.mem_map.mp hsegment
    obtain ⟨hstart, hlt⟩ := RowRange.mem_toList.mp hi
    refine ⟨{ reading with index := i }, mem_of_aliveIn (hs.team_eq team) hstart hlt ?_ ?_, rfl⟩
    · exact (View.row_eq_ok_iff_reads (Nat.lt_of_lt_of_le hlt hstop)).mpr ⟨rfl, hreads⟩
    · rw [Row.isAlive, decide_eq_true_iff]
      exact halive

theorem sameMembers_of_rearranges (h : v.Rearranges v') (hcheck : c.check v = .ok ())
    (hs : s.Depicts v c) (hs' : s'.Depicts v' c) : s.SameMembers s' := by
  have hcheck' := hcheck
  rw [← h.check_eq] at hcheck'
  constructor
  · have hown := hs.own_eq
    rw [View.own_eq, h.own_eq, h.layout_eq, ← View.own_eq, hs'.own_eq] at hown
    exact (Except.ok.inj hown).symm
  · exact hs.context_eq.trans hs'.context_eq.symm
  · intro team reading
    rw [hs.mem_readings_iff hcheck, hs'.mem_readings_iff hcheck']
    simp only [(h.rows_perm team).mem_iff, h.layout_eq]

end

end Scene

namespace Node

variable {σ : Type} [TraceSink σ] {v v' : View} {c : Context}

mutual

theorem run_congr (n : Node)
    (h : ∀ id atomic, leaf id atomic ∈ n.preorder → atomic.evaluate v c = atomic.evaluate v' c)
    (sink : σ) : n.run v c sink = n.run v' c sink := by
  cases n with
  | leaf id atomic => rw [run, run, h id atomic List.mem_cons_self]
  | sequence id ns =>
    rw [run, run]
    exact runSequence_congr ns (fun id atomic hmem => h id atomic (.tail _ hmem)) _ _
  | fallback id ns =>
    rw [run, run]
    exact runFallback_congr ns (fun id atomic hmem => h id atomic (.tail _ hmem)) _ _
  | decorator id transform n =>
    rw [run, run, run_congr n (fun id atomic hmem => h id atomic (.tail _ hmem)) sink]

theorem runSequence_congr (ns : List Node)
    (h : ∀ id atomic, leaf id atomic ∈ preorderAll ns →
      atomic.evaluate v c = atomic.evaluate v' c)
    (last : Decision) (sink : σ) :
    runSequence v c ns last sink = runSequence v' c ns last sink := by
  cases ns with
  | nil => rfl
  | cons n ns =>
    have hn := run_congr n (fun id atomic hmem => h id atomic (List.mem_append_left _ hmem))
    have hns := runSequence_congr ns
      (fun id atomic hmem => h id atomic (List.mem_append_right _ hmem))
    rw [runSequence, runSequence, hn]
    simp only [hns]

theorem runFallback_congr (ns : List Node)
    (h : ∀ id atomic, leaf id atomic ∈ preorderAll ns →
      atomic.evaluate v c = atomic.evaluate v' c)
    (exhausted : Decision) (sink : σ) :
    runFallback v c ns exhausted sink = runFallback v' c ns exhausted sink := by
  cases ns with
  | nil => rfl
  | cons n ns =>
    have hn := run_congr n (fun id atomic hmem => h id atomic (List.mem_append_left _ hmem))
    have hns := runFallback_congr ns
      (fun id atomic hmem => h id atomic (List.mem_append_right _ hmem))
    rw [runFallback, runFallback, hn]
    simp only [hns]

end

end Node

namespace Scene

variable {s : Scene} {v : View} {c : Context}

theorem Depicts.isDying_iff (hs : s.Depicts v c) {subject : Subject} {team : Team}
    (hteam : subject.team? = some team) (level : HealthLevel) :
    s.isDying subject level = true ↔
      ∃ place row, v.Sees team none place row ∧ row.health < level.threshold := by
  unfold isDying
  rw [hteam]
  dsimp only
  rw [decide_eq_true_iff, leastHealth_lt_iff, ← seen_none, hs.exists_seen_iff]

theorem Depicts.isArmed_iff (hs : s.Depicts v c) {subject : Subject} {team : Team}
    (hteam : subject.team? = some team) :
    s.isArmed subject = true ↔ ∀ place row, v.Sees team none place row → row.cooldown ≤ 0 := by
  unfold isArmed
  rw [hteam]
  dsimp only
  rw [List.all_eq_true]
  simp only [hs.mem_team_iff, decide_eq_true_iff]
  constructor
  · intro h place row hsees
    exact h row ⟨place, hsees⟩
  · rintro h row ⟨place, hsees⟩
    exact h place row hsees

end Scene

namespace Graph

theorem sameTicks_of_sameMembers {g : Graph} {s s' : Scene} {v v' : View} {c : Context}
    (hs : Scene.ofView v c = .ok s) (hs' : Scene.ofView v' c = .ok s') (h : s.SameMembers s')
    (hblind : ∀ id atomic, .leaf id atomic ∈ g.root.preorder → atomic.OrderBlind = true) :
    g.SameTicks c v v' := by
  have hdepicts := Scene.depicts_of_ofView hs
  have hdepicts' := Scene.depicts_of_ofView hs'
  have hrun {σ : Type} [TraceSink σ] (sink : σ) : g.root.run v c sink = g.root.run v' c sink := by
    apply Node.run_congr g.root
    intro id atomic hmem
    rw [hdepicts.evaluate_eq, hdepicts'.evaluate_eq, h.evaluate_eq (hblind id atomic hmem)]
  have hdecide : g.root.decide s = g.root.decide s' := by
    have hruns := hrun ()
    rw [Node.run_eq hdepicts, Node.run_eq hdepicts', Except.ok.injEq, Prod.mk.injEq] at hruns
    exact hruns.1
  have htick' := tick_of_scene (g := g) hs'
  have hexhaustive' := tickExhaustive_of_scene (g := g) hs'
  rw [← hdecide] at htick' hexhaustive'
  refine ⟨g.root.decide s, tick_of_scene hs, htick', tickExhaustive_of_scene hs, hexhaustive', ?_⟩
  intro σ _ sink
  have htraced := tickTraced_of_scene (g := g) hs sink
  refine ⟨_, htraced, ?_⟩
  unfold tickTraced at htraced ⊢
  rw [requireObserved_of_scene hs, ok_bind, hrun] at htraced
  rw [requireObserved_of_scene hs', ok_bind]
  exact htraced

theorem sameTicks_of_rearranges (g : Graph) (c : Context) (v : View) :
    ((∀ id atomic, .leaf id atomic ∈ g.root.preorder → atomic.OrderBlind = true) →
      ∀ v', v.Rearranges v' →
        g.tick v' c = g.tick v c ∧ (c.check v = .ok () → g.SameTicks c v v')) ∧
    (c.check v = .ok () →
      (∀ id subject team level, subject.team? = some team →
        ∃ d, (Node.leaf id (.isDying subject level)).tick v c = .ok d ∧
          (d.status = .success ↔
            ∃ place row, v.Sees team none place row ∧ row.health < level.threshold)) ∧
      ∀ id subject team, subject.team? = some team →
        ∃ d, (Node.leaf id (.isArmed subject)).tick v c = .ok d ∧
          (d.status = .success ↔ ∀ place row, v.Sees team none place row → row.cooldown ≤ 0)) := by
  constructor
  · intro hblind v' h
    have hsame (hcheck : c.check v = .ok ()) : g.SameTicks c v v' := by
      obtain ⟨s, hs⟩ := Scene.exists_ofView hcheck
      obtain ⟨s', hs'⟩ := Scene.exists_ofView ((h.check_eq c).trans hcheck)
      have hmembers := Scene.sameMembers_of_rearranges h hcheck (Scene.depicts_of_ofView hs)
        (Scene.depicts_of_ofView hs')
      exact sameTicks_of_sameMembers hs hs' hmembers hblind
    refine ⟨?_, hsame⟩
    cases hcheck : c.check v with
    | error violation =>
      rw [((ticks_eq_error hcheck).2 g).1,
        ((ticks_eq_error ((h.check_eq c).trans hcheck)).2 g).1]
    | ok =>
      obtain ⟨d, hd, hd', -⟩ := hsame hcheck
      exact hd'.trans hd.symm
  · intro hcheck
    obtain ⟨s, hs⟩ := Scene.exists_ofView hcheck
    have hdepicts := Scene.depicts_of_ofView hs
    constructor
    · intro id subject team level hteam
      refine ⟨_, Node.tick_of_scene hs _, ?_⟩
      rw [← hdepicts.isDying_iff hteam level]
      exact Status.ofBool_eq_success_iff
    · intro id subject team hteam
      refine ⟨_, Node.tick_of_scene hs _, ?_⟩
      rw [← hdepicts.isArmed_iff hteam]
      exact Status.ofBool_eq_success_iff

end Graph

def View.volleyTurned : View :=
  { View.volley with
    data := #[
      1, -0.25, 0, 0, 0, 0, 0, 1, 0, 0, 0, 0, 0,
      0.25, 0.5, 0, 0, 0, 0, 0, 1, 0, 0, 0, 0, 0,
      1, 0, 0.25, 0, 0, 0, 0, 0, 1, 0, 0, 0, 0,
      1, 0.5, 0.5, 0, 1, 0, 0, 0, 0, 0]
    size_eq := by rfl }

theorem View.volley_rearranges : View.volley.Rearranges .volleyTurned := by
  constructor
  · rfl
  · rfl
  · decide +kernel
  · intro team
    cases team <;> decide +kernel

theorem Graph.sameTicks_of_rearranges_volley :
    let g : Graph := ⟨.sequence 0 [.leaf 1 (.isDying .foe .middle), .leaf 2 (.isArmed .foe),
      .decorator 3 .invert (.leaf 4 (.isFlock .foe .center)), .leaf 5 .explore], 6⟩
    Context.volley.check .volley = .ok () ∧
      (∀ id atomic, .leaf id atomic ∈ g.root.preorder → atomic.OrderBlind = true) ∧
      View.volley.Rearranges .volleyTurned ∧ g.SameTicks .volley .volley .volleyTurned ∧
      ∃ place row, View.volley.Sees .foe none place row ∧
        row.health < HealthLevel.middle.threshold := by
  intro g
  have hcheck : Context.volley.check .volley = .ok () := by rfl
  have hblind : ∀ id atomic, .leaf id atomic ∈ g.root.preorder → atomic.OrderBlind = true := by
    intro id atomic hmem
    simp only [g, Node.preorder, Node.preorderAll, List.append_nil, List.cons_append,
      List.nil_append, List.mem_cons, reduceCtorEq, Node.leaf.injEq, List.not_mem_nil, false_or,
      or_false] at hmem
    rcases hmem with ⟨-, rfl⟩ | ⟨-, rfl⟩ | ⟨-, rfl⟩ | ⟨-, rfl⟩ <;> rfl
  obtain ⟨hrearranged, hjudged⟩ := sameTicks_of_rearranges g .volley .volley
  obtain ⟨d, hd, hiff⟩ := (hjudged hcheck).1 1 .foe .foe .middle rfl
  have htick : ((Node.leaf 1 (.isDying .foe .middle)).tick .volley .volley).map (·.status) =
      .ok .success := by
    decide +kernel
  rw [hd] at htick
  have hsame := (hrearranged hblind _ View.volley_rearranges).2 hcheck
  exact ⟨hcheck, hblind, View.volley_rearranges, hsame, hiff.mp (Except.ok.inj htick)⟩

end BattleTree
