import ChannelMachine.Proofs.Pairing.Renaming
import ChannelMachine.Proofs.Run.Twins
import ChannelMachine.Session

/-!
# Collections cannot be observed

What a run comes to and what it prints depend neither on the size of its heap nor on the collections
that are forced on the way, as long as there are nodes.  A run without nodes has printed the
beginning of what the run with the larger heap prints.
-/

namespace ChannelMachine

/-! ## Twins before the first instruction -/

namespace Heap

theorem holds_nil {h : Heap} {a : Nat} {header : Header} (heq : h.header a = header) :
    Holds h a header [] :=
  ⟨heq, fun _ _ h => nomatch h⟩

/-- The nodes before the first instruction are the same in all heaps. -/
theorem Global.similar {h k : Heap} {n : Nat} (hh : Global h n) (hk : Global k n) {a : Address}
    (ha : h.InUse a) : Similar h.selves h k a a := by
  have hself : ∀ i, i < 7 + n → h.selves (addressOf i) (addressOf i) := fun i hi =>
    ⟨rfl, hh.filled.inUse hi⟩
  obtain ⟨i, -, rfl⟩ := ha.toIsBlock.exists_index
  have hlt := hh.filled.lt_of_inUse ha
  have hlen : (builtinSlots n n).length = n := length_builtinSlots n n
  rcases Nat.lt_trichotomy i 5 with hconst | rfl | hi
  · have hsome := List.getElem?_eq_getElem (l := constants) (i := i) hconst
    have hplain : ∀ t ∈ constants, t ≠ .string ∧ (Header.fresh t 1).childRange = (0, 0) ∧
        (Header.fresh t 1).dataEnd ≤ 1 := by decide
    obtain ⟨ht, hrange, hend⟩ := hplain _ (List.getElem_mem hconst)
    exact (holds_nil (hh.plain i _ hsome)).similar (holds_nil (hk.plain i _ hsome)) ht
      (.plain hrange hend)
  · have hrange : (Header.fresh .frame (n + 1)).childRange = (1, n + 1) :=
      congrArg (Prod.mk 1) (toNat_size hh.fits .frame)
    refine hh.frame.similar hk.frame Tag.noConfusion
      (.children (by rw [hlen, hrange]) rfl (.self fun w hw => ?_))
    obtain ⟨j, hj, rfl⟩ := List.mem_map.1 hw
    rw [if_pos (List.mem_range.1 hj)]
    have := List.mem_range.1 hj
    exact hself (6 + j) (by omega)
  · obtain ⟨j, rfl⟩ : ∃ j, i = 6 + j := ⟨i - 6, by omega⟩
    rcases Nat.lt_or_eq_of_le (by omega : j ≤ n) with hj | rfl
    · exact (holds_nil (hh.builtin j hj)).similar (holds_nil (hk.builtin j hj)) Tag.noConfusion
        (.plain rfl (Nat.zero_le _))
    · refine hh.environment.similar hk.environment Tag.noConfusion
        (.children rfl rfl (.cons (hself 5 (by omega)) .nil))

theorem Global.matched {h k : Heap} {n : Nat} (hh : Global h n) (hk : Global k n) :
    Matched h.selves h k where
  left_inUse := fun _ _ hab => hab.2
  right_inUse := by
    rintro a _ ⟨rfl, ha⟩
    obtain ⟨i, -, rfl⟩ := ha.toIsBlock.exists_index
    exact hk.filled.inUse (hh.filled.lt_of_inUse ha)
  similar := by
    rintro a _ ⟨rfl, ha⟩
    exact hh.similar hk ha
  right_unique := fun _ _ _ hab hab' => hab.1.symm.trans hab'.1
  left_unique := fun _ _ _ hab hab' => hab.1.trans hab'.1.symm
  bottom := hk.low.trans hh.low.symm
  permanent := by
    intro a hmod hlt
    obtain ⟨i, rfl⟩ : ∃ i, addressOf i = a := ⟨a / nodeSize, addressOf_div hmod⟩
    rw [hh.low] at hlt
    exact ⟨rfl, hh.filled.inUse (Nat.lt_of_mul_lt_mul_left hlt)⟩

end Heap

/-- Machines of two sizes are twins before the first instruction. -/
theorem Machine.Initial.twins {m k : Machine} {config larger : Config}
    {builtins : List BuiltinEntry} (hm : m.Initial config builtins) (hk : k.Initial larger builtins)
    (hwords : config.heapWords ≤ larger.heapWords)
    (htyped : larger.typedChannels = config.typedChannels) :
    m.Twins .plain m.heap.selves k where
  toMatched := hm.heap.matched hk.heap
  count := by
    have hle := Nat.div_le_div_right (c := nodeSize) hwords
    rw [hm.count, hk.count]
    omega
  registers := by
    rw [hm.eq, hk.eq]
    refine ⟨.nil, rfl, ⟨rfl, hm.heap.filled.inUse ?_⟩,
      Footing.stands_of_partners .nil⟩
    exact Nat.add_lt_add_right (by decide) _
  threads := by
    intro t
    rw [hm.eq, hk.eq]
    simp only [Std.TreeMap.getElem?_emptyc]
    exact .none
  current := by rw [hm.eq, hk.eq]
  nextThread := by rw [hm.eq, hk.eq]
  channels := by
    rw [hm.eq, hk.eq]
    exact fun _ _ _ _ => rfl
  groups := by
    rw [hm.eq, hk.eq]
    exact fun _ _ _ _ => rfl
  runnable := by rw [hm.eq, hk.eq]
  builtins := by rw [hm.eq, hk.eq]
  output := by rw [hm.eq, hk.eq]
  typedChannels := by
    rw [hm.eq, hk.eq]
    exact htyped

/-! ## Whole runs -/

namespace Run

/-- Takes a step for each element of a list.  Those that are `true` force a collection in front of
it. -/
def goCollecting (program : Program) : List Bool → Run → Run
  | [], run => run
  | forced :: rest, run => goCollecting program rest ((run.collectedIf forced).next program)

/-- What a run has come to. -/
def status : Run → Machine × Ending
  | ended m ending => (m, ending)
  | run => (run.machine, .unfinished)

theorem goCollecting_ended (program : Program) (m : Machine) (ending : Ending)
    (collections : List Bool) :
    (ended m ending).goCollecting program collections = .ended m ending := by
  induction collections with
  | nil => rfl
  | cons _ _ ih => exact ih

theorem collectedIf_false (run : Run) : run.collectedIf false = run := by
  cases run <;> rfl

/-- A run that forces nothing. -/
theorem go_eq (program : Program) (n : Nat) :
    ∀ run : Run, run.go program n = (run.goCollecting program (.replicate n false)).status := by
  induction n with
  | zero =>
    intro run
    cases run <;> rfl
  | succ n ih =>
    intro run
    rw [go_succ, ih, List.replicate_succ, goCollecting, collectedIf_false]

theorem goCollecting_append (program : Program) (first second : List Bool) :
    ∀ run : Run, run.goCollecting program (first ++ second) =
      (run.goCollecting program first).goCollecting program second := by
  induction first with
  | nil => exact fun _ => rfl
  | cons forced rest ih => exact fun run => ih _

/-- Runs of twins stay what they are, whatever collections are forced. -/
theorem Twins.goCollecting {run other : Run} (t : run.Twins other) (program : Program)
    {left right : List Bool} (hlen : left.length = right.length) :
    (run.goCollecting program left).Twins (other.goCollecting program right) := by
  induction left generalizing run other right with
  | nil =>
    cases right with
    | nil => exact t
    | cons => cases hlen
  | cons forced left ih =>
    cases right with
    | nil => cases hlen
    | cons forced' right =>
      exact ih ((t.collectedIf forced forced').next program) (Nat.succ.inj hlen)

/-- What the host is told about a run. -/
def outcome (run : Run) : Outcome := run.status.2.outcome run.status.1

/-- What a run has printed. -/
def output (run : Run) : String := run.status.1.output

theorem output_eq (run : Run) : run.output = run.machine.output := by
  cases run <;> rfl

/-- The host cannot tell two runs apart, unless the first one has run out of nodes. -/
theorem Twins.observed {run other : Run} (t : run.Twins other) :
    (other.outcome = run.outcome ∧ other.output = run.output) ∨
      (run.outcome = .failed .heapExhausted ∧ ∃ text, other.output = run.output ++ text) := by
  cases t with
  | running s left hm hk t => exact .inl ⟨rfl, t.output⟩
  | idle s hm hk t => exact .inl ⟨rfl, t.output⟩
  | finished hvalue hout => exact .inl ⟨congrArg Outcome.finished hvalue, hout⟩
  | failed fault hout => exact .inl ⟨rfl, hout⟩
  | short hout =>
    rw [output_eq other]
    exact .inr ⟨rfl, hout⟩

/-- A run that ended in a fault has ended for good. -/
theorem outcome_later {program : Program} {run : Run} {n later : Nat} (hle : n ≤ later)
    {fault : Fault}
    (hfailed : (run.goCollecting program (.replicate n false)).outcome = .failed fault) :
    run.goCollecting program (.replicate later false) =
      run.goCollecting program (.replicate n false) := by
  obtain ⟨more, rfl⟩ := Nat.exists_eq_add_of_le hle
  rw [← List.replicate_append_replicate, goCollecting_append]
  generalize run.goCollecting program (.replicate n false) = r at hfailed
  cases r with
  | running => cases hfailed
  | idle => cases hfailed
  | ended m ending => exact goCollecting_ended ..

theorem Twins.begin {ρ : Heap.Pairing} {m k : Machine} (hm : m.Sound) (hk : k.Sound)
    (t : m.Twins .plain ρ k) (s : Scheduler) : Twins (begin m s) (Run.begin k s) := by
  unfold Run.begin
  rw [t.current]
  exact .idle _ hm.suspend hk.suspend (t.suspended hm.heap.toIntact)

end Run

/-! ## Sessions -/

namespace Session

/-- What the host sees of the run of a program for one step for each element of a list, of which
those that are `true` force a collection: what it comes to, and what it prints. -/
def runCollecting (config : Config) (program : Program) (collections : List Bool) :
    Outcome × String :=
  match Machine.create config standardBuiltins with
  | .error failure => (.failed failure.fault, "")
  | .ok m =>
      let run := (Run.begin m (.create config.maxQuantum config.seed)).goCollecting program
        collections
      (run.outcome, run.output)

/-- What the host sees of the run of a program for a number of steps. -/
def observe (config : Config) (program : Program) (n : Nat) : Outcome × String :=
  let ended := ({ config } : Session).run program n
  (ended.1.outcome, ended.2.output)

theorem observe_eq (config : Config) (program : Program) (n : Nat) :
    observe config program n = runCollecting config program (.replicate n false) := by
  unfold observe runCollecting run
  cases Machine.create config standardBuiltins with
  | error failure => rfl
  | ok m =>
    dsimp only
    rw [Run.go_eq]
    rfl

theorem runCollecting_later {config : Config} {program : Program} {n later : Nat}
    (hle : n ≤ later) {fault : Fault}
    (hfailed : (runCollecting config program (.replicate n false)).1 = .failed fault) :
    runCollecting config program (.replicate later false) =
      runCollecting config program (.replicate n false) := by
  unfold runCollecting at hfailed ⊢
  cases hm : Machine.create config standardBuiltins with
  | error failure => rfl
  | ok m =>
    rw [hm] at hfailed
    dsimp only at hfailed ⊢
    rw [Run.outcome_later hle hfailed]

/-- Texts that begin with one another are the same. -/
theorem eq_of_continued {s t left right : String} (hleft : t = s ++ left)
    (hright : s = t ++ right) : t = s := by
  have hlen := congrArg String.length hleft
  have hlen' := congrArg String.length hright
  rw [String.length_append] at hlen hlen'
  have hempty : left.length = 0 := by omega
  rw [hleft, String.length_eq_zero_iff.1 hempty, String.append_empty]

/-- Sessions with two sizes of heap. -/
theorem runCollecting_cases {config : Config} {words : Nat} (hwords : config.heapWords ≤ words)
    (program : Program) {left right : List Bool} (hlen : left.length = right.length) :
    runCollecting { config with heapWords := words } program right =
        runCollecting config program left ∨
      ((runCollecting config program left).1 = .failed .heapExhausted ∧
        ∃ text, (runCollecting { config with heapWords := words } program right).2 =
          (runCollecting config program left).2 ++ text) := by
  have hspec := Machine.create_spec config standardBuiltins (by decide)
  have hspec' := Machine.create_spec { config with heapWords := words } standardBuiltins (by decide)
  unfold runCollecting
  cases hm : Machine.create config standardBuiltins with
  | error failure =>
    rw [hm] at hspec
    exact .inr ⟨congrArg Outcome.failed hspec.1, _, String.empty_append.symm⟩
  | ok m =>
    rw [hm] at hspec
    cases hk : Machine.create { config with heapWords := words } standardBuiltins with
    | error failure =>
      rw [hk] at hspec'
      have hle := Nat.div_le_div_right (c := nodeSize) hwords
      have h1 := hspec.2
      have h2 := hspec'.2
      dsimp only at h2
      omega
    | ok k =>
      rw [hk] at hspec'
      have t := hspec.1.twins hspec'.1 hwords rfl
      have u := Run.Twins.begin hspec.1.sound hspec'.1.sound t
        (.create config.maxQuantum config.seed)
      rcases (u.goCollecting program hlen).observed with ⟨houtcome, hout⟩ | hshort
      · exact .inl (Prod.ext houtcome hout)
      · exact .inr hshort

/-- Collections cannot be observed.  A run that does not run out of nodes comes to the same and
prints the same in any larger heap.  A run that does has printed the beginning of what the run in
a larger heap prints.  Forced collections change neither what a run comes to nor what it prints. -/
theorem collections_unobservable {config : Config} {words : Nat}
    (hwords : config.heapWords ≤ words) (program : Program) (n : Nat) :
    let small := observe config program n
    let large := observe { config with heapWords := words } program
    (small.1 ≠ .failed .heapExhausted → large n = small) ∧
      (small.1 = .failed .heapExhausted →
        ∀ later, n ≤ later → ∃ text, (large later).2 = small.2 ++ text) ∧
      ∀ collections : List Bool, collections.length = n →
        runCollecting config program collections = small := by
  simp only [observe_eq]
  have hlen : ∀ n, (List.replicate n false).length = (List.replicate n false).length := fun _ => rfl
  refine ⟨fun hne => ?_, fun hshort later hle => ?_, fun collections hcollections => ?_⟩
  · exact (runCollecting_cases hwords program (hlen n)).resolve_right fun h => hne h.1
  · rw [← runCollecting_later hle hshort]
    rcases runCollecting_cases hwords program (hlen later) with heq | ⟨-, hout⟩
    · exact ⟨"", (congrArg Prod.snd heq).trans String.append_empty.symm⟩
    · exact hout
  · have hlen' : (List.replicate n false).length = collections.length := by
      rw [List.length_replicate, hcollections]
    -- Each of the two runs could stand for the one with the smaller heap.
    have hle := Nat.le_refl config.heapWords
    rcases runCollecting_cases hle program hlen' with heq | ⟨hs, text, ht⟩
    · exact heq
    rcases runCollecting_cases hle program hlen'.symm with heq | ⟨hs', text', ht'⟩
    · exact heq.symm
    · exact Prod.ext (hs'.trans hs.symm) (eq_of_continued ht ht')

/-- A collection between two instructions. -/
theorem collections_unobservable_pop :
    runCollecting { heapWords := 200, seed := 7 } ⟨#[.constant .null, .pop]⟩ [false, false, true] =
      observe { heapWords := 200, seed := 7 } ⟨#[.constant .null, .pop]⟩ 3 :=
  (collections_unobservable (show (200 : Nat) ≤ 400 by decide)
    ⟨#[.constant .null, .pop]⟩ 3).2.2 [false, false, true] rfl

end Session

end ChannelMachine
