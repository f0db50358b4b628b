import ChannelMachine.Proofs.Meaning.Calling
import ChannelMachine.Proofs.Source.Compiled

/-!
# Following evaluations

`Traces program w spot x goal` says that a machine at a spot of a world follows the evaluation `x`:
where the evaluation gives a value, the machine comes to the spot that `goal` names for it, in the world
that the evaluation leaves behind, and where it ends in a fault, the machine ends in the same one.  The
lemmas here are the rules for the steps that evaluations are made of.
-/

namespace ChannelMachine.Source

/-! ## Names -/

/-- The scopes of the compiler have the names of the environment. -/
def Knows (c : Context) (environment : Environment) : Prop :=
  c.scopes.map (·.map Prod.fst) = environment.map Layer.names

namespace Knows

variable {c : Context} {environment : Environment}

theorem length (h : Knows c environment) : c.scopes.length = environment.length := by
  have hlen := congrArg List.length h
  rwa [List.length_map, List.length_map] at hlen

/-- A scope that is entered has a frame with its names. -/
theorem enter (h : Knows c environment) (s : Scope) (frame : Nat) :
    Knows { c with scopes := s :: c.scopes } (⟨s.map Prod.fst, frame⟩ :: environment) :=
  congrArg (s.map Prod.fst :: ·) h

end Knows

theorem Scope.findIdx?_of_find? {s : Scope} {name : String} {slot : Nat} {b : Binding}
    (h : s.find? name = some (slot, b)) : s.findIdx? (·.1 = name) = some slot := by
  unfold Scope.find? at h
  split at h
  next i hi =>
    obtain ⟨_, -, heq⟩ := Option.map_eq_some_iff.1 h
    obtain ⟨rfl, -⟩ := Prod.mk.inj heq
    exact hi
  next => cases h

theorem Scope.findIdx?_of_find?_eq_none {s : Scope} {name : String} (h : s.find? name = none) :
    s.findIdx? (·.1 = name) = none := by
  unfold Scope.find? at h
  split at h
  next i hi =>
    have hlt := (List.findIdx?_eq_some_iff_findIdx_eq.1 hi).1
    rw [List.getElem?_eq_getElem hlt] at h
    cases h
  next hnone => exact hnone

/-- A name is found by the compiler where the evaluator finds it. -/
theorem find?_of_find? {name : String} {scopes : List Scope} {environment : Environment}
    (h : scopes.map (·.map Prod.fst) = environment.map Layer.names) {p : Position} {b : Binding}
    (hfind : Context.find? name scopes = some (p, b)) :
    ∃ layer, environment.find? name = some (layer.frame, p.slot) ∧
      environment.reverse[p.frame]? = some layer ∧ p.slot < layer.names.length := by
  induction scopes generalizing environment with
  | nil => cases hfind
  | cons s outer ih =>
    cases environment with
    | nil => cases h
    | cons layer rest =>
      obtain ⟨hnames, hrest⟩ := List.cons.inj h
      have hindex : layer.names.findIdx? (· = name) = s.findIdx? (·.1 = name) := by
        rw [← hnames, List.findIdx?_map]
        rfl
      have hlen := congrArg List.length hrest
      rw [List.length_map, List.length_map] at hlen
      unfold Context.find? at hfind
      unfold Environment.find?
      rw [hindex, List.reverse_cons]
      split at hfind
      next slot b' hslot =>
        obtain ⟨rfl, -⟩ := Prod.mk.inj (Option.some.inj hfind)
        refine ⟨layer, ?_, ?_, ?_⟩
        · rw [Scope.findIdx?_of_find? hslot]
        · change (rest.reverse ++ [layer])[outer.length]? = some layer
          rw [hlen, ← List.length_reverse]
          exact List.getElem?_concat_length
        · rw [← hnames, List.length_map]
          exact Scope.lt_of_find? hslot
      next hnone =>
        obtain ⟨layer', hfind', hget, hlt⟩ := ih hrest hfind
        refine ⟨layer', ?_, ?_, hlt⟩
        · rw [Scope.findIdx?_of_find?_eq_none hnone]
          exact hfind'
        · exact World.getElem?_append_of_some hget _

theorem Knows.find? {c : Context} {environment : Environment} (h : Knows c environment)
    {name : String} {p : Position} {b : Binding} (hp : c.resolve name = .ok (p, b)) :
    ∃ layer, environment.find? name = some (layer.frame, p.slot) ∧
      environment.reverse[p.frame]? = some layer ∧ p.slot < layer.names.length := by
  unfold Context.resolve at hp
  split at hp
  next found hfound =>
    obtain rfl := Except.ok.inj hp
    exact find?_of_find? h hfound
  next => cases hp

/-! ## Code of functions -/

/-- The code of a function starts at an index: that of its body, and the end that gives `undefined`. -/
structure Translates (program : Program) (f : Function) (entry : Nat) : Prop where
  /-- A frame has room for the arguments. -/
  parameters : f.parameters.length ≤ maxSlots
  /-- An environment has room for the frame of the arguments. -/
  environment : f.environment.length < maxSlots
  /-- The code. -/
  code : ∃ (c : Context) (code : Code), c.inLoop = false ∧
    (∀ frame, Knows c (⟨f.parameters, frame⟩ :: f.environment)) ∧
    block c entry (declared f.body) (fun c base => compileBody c base f.body) = .ok code ∧
    Lies program.at? entry (code ++ [.pop, .constant .undefined, .ret])

/-- The code of each function stands in the program. -/
structure World.Coded (program : Program) (w : World) : Prop where
  /-- Each function has an index. -/
  length : w.entries.length = w.store.functions.length
  /-- Its code starts there. -/
  translates : ∀ (i : Nat) f, w.store.functions[i]? = some f →
    ∃ entry, w.entries[i]? = some entry ∧ Translates program f entry

/-! ## Evaluations -/

/-- A machine comes to what the result of an evaluation says. -/
def Ends (program : Program) (v : View) {α : Type} (goal : α → Spot) :
    EStateM.Result Stop Store α → Prop
  | .ok a s => ∃ entries, World.Coded program ⟨s, entries⟩ ∧ Reaches program v ⟨⟨s, entries⟩, goal a⟩
  | .error (.fault cause) s => ∃ v', Reaches program v v' ∧ Faults program v' cause ∧
      v'.world.store.output = s.output
  | .error .unknown _ => True

theorem Ends.after {program : Program} {v v' : View} {α : Type} {goal : α → Spot}
    {result : EStateM.Result Stop Store α} (h : Reaches program v v')
    (ends : Ends program v' goal result) : Ends program v goal result := by
  match result, ends with
  | .ok a s, ⟨entries, hw, hreach⟩ => exact ⟨entries, hw, h.trans hreach⟩
  | .error (.fault cause) s, ⟨v'', hreach, ends⟩ => exact ⟨v'', h.trans hreach, ends⟩
  | .error .unknown _, _ => trivial

/-- A machine at a spot follows an evaluation. -/
def Traces (program : Program) (w : World) (spot : Spot) {α : Type} (x : Evaluation α)
    (goal : α → Spot) : Prop :=
  Ends program ⟨w, spot⟩ goal (x w.store)

namespace Traces

variable {program : Program} {w : World} {spot mid : Spot} {α β : Type} {x : Evaluation α}
  {goal : α → Spot}

theorem pure (hw : w.Coded program) {a : α} (h : Reaches program ⟨w, spot⟩ ⟨w, goal a⟩) :
    Traces program w spot (Pure.pure a) goal :=
  ⟨w.entries, hw, h⟩

theorem unknown : Traces program w spot (throw .unknown : Evaluation α) goal := trivial

theorem fault {cause : Fault} (h : Faults program ⟨w, spot⟩ cause) :
    Traces program w spot (throw (.fault cause) : Evaluation α) goal :=
  ⟨_, .refl, h, rfl⟩

/-- The machine executes instructions before the evaluation begins. -/
theorem after (h : Reaches program ⟨w, spot⟩ ⟨w, mid⟩) (hx : Traces program w mid x goal) :
    Traces program w spot x goal :=
  Ends.after h hx

theorem step (h : Steps program ⟨w, spot⟩ ⟨w, mid⟩) (hx : Traces program w mid x goal) :
    Traces program w spot x goal :=
  hx.after (.single h)

/-- One evaluation after another, of which the first one has a value. -/
theorem bind_of {f : α → Evaluation β} {through : α → Spot} {goal : β → Spot}
    (hx : Traces program w spot x through)
    (hf : ∀ a w', World.Coded program w' → x w.store = .ok a w'.store →
      Traces program w' (through a) (f a) goal) :
    Traces program w spot (x >>= f) goal := by
  unfold Traces at hx
  change Ends program ⟨w, spot⟩ goal (EStateM.bind x f w.store)
  unfold EStateM.bind
  cases hres : x w.store with
  | ok a s =>
    rw [hres] at hx
    obtain ⟨entries, hw, hreach⟩ := hx
    exact Ends.after hreach (hf a ⟨s, entries⟩ hw hres)
  | error stop s =>
    rw [hres] at hx
    match stop, hx with
    | .fault cause, hx => exact hx
    | .unknown, _ => trivial

/-- One evaluation after another. -/
theorem bind {f : α → Evaluation β} {through : α → Spot} {goal : β → Spot}
    (hx : Traces program w spot x through)
    (hf : ∀ a w', World.Coded program w' → Traces program w' (through a) (f a) goal) :
    Traces program w spot (x >>= f) goal :=
  hx.bind_of fun a w' hw' _ => hf a w' hw'

/-- The machine goes on after the evaluation. -/
theorem before {through : α → Spot} (hx : Traces program w spot x through)
    (h : ∀ a w', Reaches program ⟨w', through a⟩ ⟨w', goal a⟩) :
    Traces program w spot x goal := by
  have hbind := hx.bind (f := Pure.pure) fun a w' hw' => pure hw' (h a w')
  rwa [bind_pure] at hbind

theorem get {f : Store → Evaluation α} (h : Traces program w spot (f w.store) goal) :
    Traces program w spot (MonadState.get >>= f) goal := h

/-- A result that does not depend on the store. -/
theorem of {r : Except Stop α} (hw : w.Coded program)
    (hok : ∀ a, r = .ok a → Steps program ⟨w, spot⟩ ⟨w, goal a⟩)
    (hfault : ∀ cause, r = .error (.fault cause) → Faults program ⟨w, spot⟩ cause) :
    Traces program w spot (Evaluation.of r) goal := by
  match r with
  | .ok a => exact pure hw (.single (hok a rfl))
  | .error (.fault cause) => exact fault (hfault cause rfl)
  | .error .unknown => exact unknown

end Traces

/-! ## Variables and functions -/

section Variables

variable {program : Program} {w : World} {operands : List Datum} {environment : Environment}
  {returns : List Kont} {pc : Nat} {c : Context} {name : String} {p : Position} {b : Binding}

theorem World.Coded.assign (hw : w.Coded program) (frame slot : Nat) (v : Datum) :
    (w.assign frame slot v).Coded program :=
  ⟨hw.length, hw.translates⟩

theorem World.Coded.withFrame (hw : w.Coded program) (slots : List (Option Datum)) :
    (w.withFrame slots).Coded program :=
  ⟨hw.length, hw.translates⟩

theorem World.Coded.print (hw : w.Coded program) (text : String) : (w.print text).Coded program :=
  ⟨hw.length, hw.translates⟩

end Variables

end ChannelMachine.Source
