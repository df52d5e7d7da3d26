import Codel.Proofs.Run.Trajectory
import Codel.Run.Report

namespace Codel

namespace Walk

variable {g : Grid} {w w' : Walk g}

/-- The walk without what its locator remembers. -/
def forget (w : Walk g) : Walk g := { w with locator := .direct }

theorem Ready.forget (h : w.Ready) : w.forget.Ready := ⟨trivial, h.oriented⟩

theorem observe_forget (w : Walk g) (t : Transition) :
    w.forget.observe t = ((w.observe t).1.forget, (w.observe t).2) := by
  unfold observe Walk.forget
  dsimp only
  split <;> rfl

theorem nextLocator_forget (w : Walk g) : w.forget.nextLocator = .direct := by
  unfold nextLocator Walk.forget
  dsimp only [Locator.find]
  split <;> rfl

theorem cross_forget (set : InstructionSet) (w : Walk g) (l : Locator g) :
    w.forget.cross set .direct = ((w.cross set l).1.forget, (w.cross set l).2) := by
  unfold cross
  change (if (w.state.move g).blocked then _ else _) = _
  split
  · rfl
  · exact observe_forget { w with
      state := w.state.crossed g set
      locator := l
      counters := w.counters.count (w.state.instruction g) } _

theorem advance_forget (h : w.Ready) (set : InstructionSet) :
    w.forget.advance set = ((w.advance set).1.forget, (w.advance set).2) := by
  rw [advance_eq set h.locator h.oriented, advance_eq set h.forget.locator h.forget.oriented,
    nextLocator_forget]
  exact cross_forget set w _

/-- Walks that differ at most in what their locators remember. -/
structure Forgotten (w w' : Walk g) : Prop where
  ready : w.Ready
  ready' : w'.Ready
  same : w'.forget = w.forget

theorem Forgotten.tick (h : w.Forgotten w') : w.tick.Forgotten w'.tick :=
  ⟨⟨h.ready.locator, h.ready.oriented⟩, ⟨h.ready'.locator, h.ready'.oriented⟩,
    congrArg Walk.tick h.same⟩

theorem Forgotten.steps (h : w.Forgotten w') : w'.state.steps = w.state.steps := by
  change w'.forget.state.steps = w.forget.state.steps
  rw [h.same]

theorem Forgotten.turn (h : w.Forgotten w') (set : InstructionSet) :
    (w.begin.advance set).1.Forgotten (w'.begin.advance set).1 ∧
      (w'.begin.advance set).2 = (w.begin.advance set).2 := by
  have hturn : w'.begin.forget.advance set = w.begin.forget.advance set :=
    congrArg (fun v : Walk g => v.begin.advance set) h.same
  rw [advance_forget h.ready.begin, advance_forget h.ready'.begin] at hturn
  obtain ⟨hsame, hending⟩ := Prod.mk.inj hturn
  exact ⟨⟨h.ready.begin.advance set, h.ready'.begin.advance set, hsame⟩, hending⟩

theorem Forgotten.outcome {e e' : Ending} (h : w.Forgotten w') (he : e' = e) :
    w'.outcome e' = w.outcome e := by
  have houtcome : ∀ (v : Walk g) (e : Ending), v.outcome e = v.forget.outcome e := fun _ _ => rfl
  rw [he, houtcome w', h.same, ← houtcome w]

end Walk

namespace Setup

theorem walk_cached (s : Setup) (a b : Bool) (trace : Option Sink) :
    ({ s with cached := a } : Setup).walk trace = ({ s with cached := b } : Setup).walk trace := by
  have houtset : (({ s with cached := b } : Setup).outset trace).Forgotten
      (({ s with cached := a } : Setup).outset trace) :=
    ⟨outset_ready _ trace, outset_ready _ trace, rfl⟩
  obtain ⟨htravel, hending⟩ := Walk.travel_side_by_side (fun _ _ hw => hw.turn s.instructions)
    (s.turns (s.stepLimit - 1) 0) houtset
  obtain ⟨hwalk, hlast⟩ := Walk.close_side_by_side { s with cached := b } { s with cached := a }
    rfl (fun _ _ hw => hw.tick) (fun _ _ hw => hw.steps) htravel hending
  rw [walk_eq_close, walk_eq_close]
  exact hwalk.outcome hlast

/-- Besides its turns a run reads trace, header and machine off its setup. -/
theorem execute_congr {s t : Setup} (htrace : s.trace = t.trace) (hheader : s.header = t.header)
    (hmachine : s.machine = t.machine) (hwalk : ∀ trace, s.walk trace = t.walk trace) :
    s.execute = t.execute := by
  unfold execute
  rw [htrace, hheader, hmachine]
  simp only [hwalk]

theorem execute_cached (s : Setup) (a b : Bool) :
    ({ s with cached := a } : Setup).execute = ({ s with cached := b } : Setup).execute :=
  execute_congr rfl rfl rfl (walk_cached s a b)

/-- A cache changes neither what a run comes to nor what it shows, though it may hand out the codels
of a block in another order. -/
theorem cache_is_transparent (s : Setup) :
    ({ s with cached := true } : Setup).execute = ({ s with cached := false } : Setup).execute ∧
    (∀ debug, ({ s with cached := true } : Setup).notes debug
        ({ s with cached := true } : Setup).execute =
      ({ s with cached := false } : Setup).notes debug
        ({ s with cached := false } : Setup).execute) ∧
    ∃ (g : Grid) (p q : Pos), (((BlockCache.empty g).find p).2.find q).1 ≠ g.blockAt q := by
  have hexecute := execute_cached s true false
  refine ⟨hexecute, fun debug => ?_, ?_⟩
  · rw [hexecute]
    rfl
  · refine ⟨Grid.ofFn 2 1 fun _ _ => Colour.white, ⟨0, 0⟩, ⟨1, 0⟩, ?_⟩
    decide

end Setup

end Codel
