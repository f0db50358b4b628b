import ChannelMachine.Proofs.Pairing.Machine

/-!
# Instructions of twins

Every instruction does the same on two machines that are twins, unless the first one runs out of
nodes: both stay twins, under some pairing, or both end in the same fault.
-/

namespace ChannelMachine

open Heap (Pairing Partners)

/-! ## Operators -/

namespace Heap.Paired

variable {ρ : Pairing} {h k : Heap} {roots roots' : Roots}

theorem gives_pure (p : Paired ρ h k roots.get roots'.get) {a b : Address} (hab : ρ a b) :
    Gives ρ h k roots.get roots'.get a h b k :=
  ⟨ρ, .refl p, hab⟩

theorem relates_boolean (p : Paired ρ h k roots.get roots'.get) (b : Bool) :
    Relates (pure (boolean b)) (pure (boolean b)) h k (Gives ρ h k roots.get roots'.get)
      (fun _ _ => True) := by
  refine .pure (p.gives_pure ?_)
  cases b
  · exact p.toMatched.constant (i := 0) p.left.toIntact (by decide)
  · exact p.toMatched.constant (i := 1) p.left.toIntact (by decide)

theorem relates_applyUnary (p : Paired ρ h k roots.get roots'.get)
    (hcount : h.nodeCount ≤ k.nodeCount) (op : UnaryOp) {a b : Address} (hab : ρ a b) :
    Relates (applyUnary op a roots) (applyUnary op b roots') h k (Gives ρ h k roots.get roots'.get)
      (fun _ _ => True) := by
  have s := p.similar a b hab
  cases op with
  | neg =>
    refine .bind (.get ?_)
    rw [s.number?]
    cases h.number? a with
    | some x => exact p.relates_newNumber hcount _
    | none =>
      refine .bind (.get ?_)
      rw [s.tag]
      exact .throw trivial
  | not =>
    refine .bind (.get ?_)
    rw [s.bool?]
    cases h.bool? a with
    | some x => exact p.relates_boolean _
    | none =>
      refine .bind (.get ?_)
      rw [s.tag]
      exact .throw trivial

theorem relates_applyBinary (p : Paired ρ h k roots.get roots'.get)
    (hcount : h.nodeCount ≤ k.nodeCount) (op : BinaryOp) {a b a' b' : Address} (hab : ρ a b)
    (hab' : ρ a' b') :
    Relates (applyBinary op a a' roots) (applyBinary op b b' roots') h k
      (Gives ρ h k roots.get roots'.get) (fun _ _ => True) := by
  have m := p.toMatched
  have hthrow : Relates (do throw ((← get).badOperands op a a') : Heap.Action Address)
      (do throw ((← get).badOperands op b b')) h k (Gives ρ h k roots.get roots'.get)
      (fun _ _ => True) := by
    refine .bind (.get ?_)
    rw [m.badOperands hab hab']
    exact .throw trivial
  unfold applyBinary
  cases op
  case eq | ne =>
    refine .bind (.get ?_)
    rw [m.sameValue hab hab']
    exact p.relates_boolean _
  case lt | le | gt | ge =>
    refine .bind (.get ?_)
    rw [m.operands hab hab']
    cases h.operands a a' with
    | numbers x y => exact p.relates_boolean _
    | texts s t => exact p.relates_boolean _
    | other => exact hthrow
  case add =>
    refine .bind (.get ?_)
    rw [m.operands hab hab']
    cases h.operands a a' with
    | numbers x y => exact p.relates_newNumber hcount _
    | texts s t => exact p.relates_newString hcount _
    | other => exact hthrow
  all_goals
    refine .bind (.get ?_)
    rw [m.operands hab hab']
    cases h.operands a a' with
    | numbers x y => exact p.relates_newNumber hcount _
    | texts s t => exact hthrow
    | other => exact hthrow

end Heap.Paired

namespace Machine

/-- Both machines have printed the same. -/
def SameOutput (m k : Machine) : Prop := k.output = m.output

/-- Two actions leave twins behind. -/
def LeavesTwins (f : Footing) (x y : Action Unit) (m k : Machine) : Prop :=
  Relates x y m k (fun _ m _ k => ∃ σ, Twins f σ m k) SameOutput

/-- The machine after a return to a call frame, with the frames below it. -/
def returned (m : Machine) (call : Address) (rest : List Address) : Machine :=
  m.withRegisters { m.registers with
    frames := rest, pc := (m.heap.payload call).toNat, environment := m.heap.word call 1 }

theorem ret_eq {m : Machine} {call : Address} {rest : List Address}
    (hframes : (m.registers.frames.dropWhile fun a => m.heap.tag a ≠ .callframe) = call :: rest) :
    ret m = .ok () (m.returned call rest) := by
  have hret : Ensures ret m (fun _ k => k = m.returned call rest) (fun _ _ => False) := by
    refine .bind (ensures_registersNow (.bind (ensures_readHeap ?_)))
    rw [hframes]
    exact .bind (ensures_readHeap (.bind (ensures_readHeap (ensures_setRegisters rfl))))
  obtain ⟨_, _, hresult, rfl⟩ := hret.exists_ok
  exact hresult

theorem dropWhile_of_callframe {h : Heap} {call : Address} {blocks rest : List Address}
    (hblocks : ∀ a ∈ blocks, h.tag a = .blockframe) (hcall : h.tag call = .callframe) :
    ((blocks ++ call :: rest).dropWhile fun a => h.tag a ≠ .callframe) = call :: rest := by
  rw [List.dropWhile_append_of_pos fun a ha => by rw [hblocks a ha]; decide,
    List.dropWhile_cons_of_neg (by rw [hcall]; decide)]

/-- The first machine returns from spent frames until the two are twins, or until both have left the
frames at the bottom of their return stacks. -/
inductive Catches (f : Footing) (ρ : Pairing) : Machine → Machine → Prop where
  | even {m k : Machine} : Twins f ρ m k → Catches f ρ m k
  | out {m k : Machine} {a b : Address} : f.left = a :: m.registers.frames →
      f.right = b :: k.registers.frames → m.registers.pc = f.resume → Twins .plain ρ m k →
      Catches f ρ m k
  | behind {m k : Machine} {call : Address} {rest : List Address} : f.returns m.registers.pc →
      f.left.length ≤ m.registers.frames.length →
      (m.registers.frames.dropWhile fun a => m.heap.tag a ≠ .callframe) = call :: rest →
      Catches f ρ (m.returned call rest) k → Catches f ρ m k

/-- Two actions leave machines behind of which the first catches up with the second. -/
def LeavesCaught (f : Footing) (x y : Action Unit) (m k : Machine) : Prop :=
  Relates x y m k (fun _ m _ k => ∃ σ, Catches f σ m k) SameOutput

variable {f : Footing} {ρ σ : Pairing} {m k : Machine} {α β : Type}

/-! ## Steps of instructions -/

theorem relates_readHeap {f g : Heap → α} {good : α → Machine → α → Machine → Prop}
    {bad : Machine → Machine → Prop} (heq : g k.heap = f m.heap)
    (h : good (f m.heap) m (f m.heap) k) : Relates (readHeap f) (readHeap g) m k good bad := by
  change good (f m.heap) m (g k.heap) k
  rw [heq]
  exact h

theorem relates_readPair {f g : Heap → α} {good : α → Machine → α → Machine → Prop}
    {bad : Machine → Machine → Prop} (h : good (f m.heap) m (g k.heap) k) :
    Relates (readHeap f) (readHeap g) m k good bad := h

theorem relates_registersNow {good : Registers → Machine → Registers → Machine → Prop}
    {bad : Machine → Machine → Prop} (h : good m.registers m k.registers k) :
    Relates registersNow registersNow m k good bad := h

theorem relates_setRegisters {f g : Registers → Registers}
    {good : Unit → Machine → Unit → Machine → Prop} {bad : Machine → Machine → Prop}
    (h : good () (m.withRegisters (f m.registers)) () (k.withRegisters (g k.registers))) :
    Relates (setRegisters f) (setRegisters g) m k good bad := h

theorem relates_update {f g : Machine → Machine} {good : Unit → Machine → Unit → Machine → Prop}
    {bad : Machine → Machine → Prop} (h : good () (f m) () (g k)) :
    Relates (update f) (update g) m k good bad := h

theorem relates_updateHeap {f g : Heap → Heap} {good : Unit → Machine → Unit → Machine → Prop}
    {bad : Machine → Machine → Prop}
    (h : good () { m with heap := f m.heap } () { k with heap := g k.heap }) :
    Relates (updateHeap f) (updateHeap g) m k good bad := h

theorem relates_onHeap {action : Roots → Heap.Action α} {action' : Roots → Heap.Action β}
    {good : α → Machine → β → Machine → Prop} {bad : Machine → Machine → Prop}
    (h : Relates (action (threadRoots m.registers m.threads))
      (action' (threadRoots k.registers k.threads)) m.heap k.heap
      (fun a h b h' => good a (m.withHeap h) b (k.withHeap h')) (fun _ _ => True))
    (hbad : ∀ h h', bad (m.withHeap h) (k.withHeap h')) :
    Relates (onHeap action) (onHeap action') m k good bad := by
  unfold Relates at h ⊢
  unfold onHeap
  cases m with
  | mk heap registers current threads nextThread channels groups runnable builtins output
      typedChannels tracing journal =>
    cases k with
    | mk heap' registers' current' threads' nextThread' channels' groups' runnable' builtins'
        output' typedChannels' tracing' journal' =>
      simp only at h ⊢
      cases hx : action (threadRoots registers threads) heap with
      | ok a h1 =>
        cases hy : action' (threadRoots registers' threads') heap' with
        | ok b h2 =>
          rw [hx, hy] at h
          exact h
        | error e h2 =>
          rw [hx, hy] at h
          exact h
      | error e h1 =>
        cases hy : action' (threadRoots registers' threads') heap' with
        | ok b h2 =>
          rw [hx, hy] at h
          exact h
        | error e' h2 =>
          rw [hx, hy] at h
          exact h.imp_right fun h => ⟨h.1, hbad h1 h2⟩

namespace Twins

theorem relates_peek (t : Twins f ρ m k) {depth : Nat}
    {good : Address → Machine → Address → Machine → Prop}
    (h : ∀ a b, m.registers.stack[depth]? = some a → ρ a b → good a m b k) :
    Relates (peek depth) (peek depth) m k good SameOutput := by
  refine .bind (relates_registersNow ?_)
  rcases t.registers.stack.getElem? depth with ⟨a, b, ha, hb, hab⟩ | ⟨ha, hb⟩
  · rw [ha, hb]
    exact .pure (h a b ha hab)
  · rw [ha, hb]
    exact .throw t.output

theorem relates_pop (t : Twins f ρ m k) {good : Address → Machine → Address → Machine → Prop}
    (h : ∀ a rest b rest', ρ a b → Partners ρ rest rest' → good a
      (m.withRegisters { m.registers with stack := rest }) b
      (k.withRegisters { k.registers with stack := rest' })) :
    Relates pop pop m k good SameOutput := by
  refine .bind (relates_registersNow ?_)
  have hstack := t.registers.stack
  generalize m.registers.stack = stack at hstack
  generalize k.registers.stack = stack' at hstack
  cases hstack with
  | nil => exact .throw t.output
  | cons hab hrest => exact .bind (relates_setRegisters (.pure (h _ _ _ _ hab hrest)))

theorem withRegisters {g : Footing} (t : Twins f ρ m k) {r s : Registers}
    (hrs : r.Follows g ρ m.heap s) : Twins g ρ (m.withRegisters r) (k.withRegisters s) :=
  ⟨t.toMatched, t.count, hrs, t.threads, t.current, t.nextThread, t.channels, t.groups, t.runnable,
    t.builtins, t.output, t.typedChannels⟩

theorem moved (t : Twins f ρ m k) (pc : Nat) :
    Twins f ρ (m.withRegisters { m.registers with pc }) (k.withRegisters { k.registers with pc }) :=
  t.withRegisters ⟨t.registers.stack, rfl, t.registers.environment, t.registers.frames⟩

theorem stacked (t : Twins f ρ m k) {stack stack' : List Address}
    (hstack : Partners ρ stack stack') :
    Twins f ρ (m.withRegisters { m.registers with stack })
      (k.withRegisters { k.registers with stack := stack' }) :=
  t.withRegisters ⟨hstack, t.registers.pc, t.registers.environment, t.registers.frames⟩

theorem noted (t : Twins f ρ m k) (e e' : Event) : Twins f ρ (m.note e) (k.note e') := by
  have hm : ∀ (m : Machine) e, m.note e = { m with journal := (m.note e).journal } := by
    intro m e
    unfold note
    split <;> rfl
  rw [hm m, hm k]
  exact ⟨t.toMatched, t.count, t.registers, t.threads, t.current, t.nextThread, t.channels,
    t.groups, t.runnable, t.builtins, t.output, t.typedChannels⟩

theorem leaves_goTo (t : Twins f ρ m k) (pc : Nat) : LeavesTwins f (goTo pc) (goTo pc) m k :=
  ⟨ρ, t.moved pc⟩

theorem leaves_advance (t : Twins f ρ m k) : LeavesTwins f advance advance m k :=
  ⟨ρ, t.withRegisters ⟨t.registers.stack, congrArg (· + 1) t.registers.pc,
    t.registers.environment, t.registers.frames⟩⟩

theorem leaves_push_advance (t : Twins f ρ m k) {a b : Address} (hab : ρ a b) :
    LeavesTwins f (do push a; advance) (do push b; advance) m k :=
  .bind (relates_setRegisters (t.stacked (.cons hab t.registers.stack)).leaves_advance)

theorem leaves_replace_advance (t : Twins f ρ m k) (n : Nat) {a b : Address} (hab : ρ a b) :
    LeavesTwins f (do replace n a; advance) (do replace n b; advance) m k :=
  .bind (relates_setRegisters
    (t.stacked (.cons hab (t.registers.stack.drop n))).leaves_advance)

theorem boolean (t : Twins f ρ m k) (hm : m.Resting) (b : Bool) :
    ρ (Heap.boolean b) (Heap.boolean b) := by
  cases b
  · exact t.toMatched.constant (i := 0) hm.heap.toIntact (by decide)
  · exact t.toMatched.constant (i := 1) hm.heap.toIntact (by decide)

theorem undefined (t : Twins f ρ m k) (hm : m.Resting) : ρ Heap.undefined Heap.undefined :=
  t.toMatched.constant (i := 4) hm.heap.toIntact (by decide)

/-- The rule for an action on the heap that makes a node. -/
theorem relates_gives (t : Twins f ρ m k) {action action' : Roots → Heap.Action Address}
    {good : Address → Machine → Address → Machine → Prop}
    (h : Relates (action (threadRoots m.registers m.threads))
      (action' (threadRoots k.registers k.threads)) m.heap k.heap
      (Heap.Paired.Gives ρ m.heap k.heap m.roots k.roots) (fun _ _ => True))
    (hgood : ∀ σ a h b h', Twins f σ (m.withHeap h) (k.withHeap h') → σ a b →
      good a (m.withHeap h) b (k.withHeap h')) :
    Relates (onHeap action) (onHeap action') m k good SameOutput := by
  refine relates_onHeap (h.mono ?_) fun _ _ => t.output
  rintro a h b h' ⟨σ, e, hab⟩
  exact hgood σ a h b h' (t.evolved e) hab

end Twins

section

variable (hm : m.Sound) (hk : k.Sound) (t : Twins f ρ m k)
include hm hk t

/-! ## Constants and operators -/

theorem twins_constant (l : Literal) : LeavesTwins f (constant l) (constant l) m k := by
  have p := t.paired hm.toResting hm.inUse_root hk.toResting
  unfold constant
  cases l with
  | number x =>
    exact .bind (t.relates_gives (p.relates_newNumber t.count x) fun _ _ _ _ _ t hab =>
      t.leaves_push_advance hab)
  | text s =>
    exact .bind (t.relates_gives (p.relates_newString t.count s) fun _ _ _ _ _ t hab =>
      t.leaves_push_advance hab)
  | bool b => exact .bind (.pure (t.leaves_push_advance (t.boolean hm.toResting b)))
  | null =>
    exact .bind (.pure (t.leaves_push_advance
      (t.toMatched.constant (i := 2) hm.heap.toIntact (by decide))))
  | undefined => exact .bind (.pure (t.leaves_push_advance (t.undefined hm.toResting)))

theorem twins_unary (op : UnaryOp) : LeavesTwins f (unary op) (unary op) m k := by
  have p := t.paired hm.toResting hm.inUse_root hk.toResting
  refine .bind (t.relates_peek fun a b _ hab => ?_)
  exact .bind (t.relates_gives (p.relates_applyUnary t.count op hab) fun _ _ _ _ _ t hab =>
    t.leaves_replace_advance 1 hab)

theorem twins_binary (op : BinaryOp) : LeavesTwins f (binary op) (binary op) m k := by
  have p := t.paired hm.toResting hm.inUse_root hk.toResting
  refine .bind (t.relates_peek fun a b _ hab => ?_)
  refine .bind (t.relates_peek fun a' b' _ hab' => ?_)
  exact .bind (t.relates_gives (p.relates_applyBinary t.count op hab' hab) fun _ _ _ _ _ t hab =>
    t.leaves_replace_advance 2 hab)

/-! ## Variables -/

theorem twins_load (pos : Position) : LeavesTwins f (load pos) (load pos) m k := by
  have p := t.paired hm.toResting hm.inUse_root hk.toResting
  refine .bind (relates_registersNow (.bind (relates_readPair ?_)))
  have hunassigned := t.toMatched.constant (i := 3) hm.heap.toIntact (by decide)
  rcases p.lookup t.registers.environment hm.registers.tag pos with
    ⟨a, b, ha, hb, hab⟩ | ⟨e, ha, hb⟩
  · rw [ha, hb]
    have heq : b = Heap.unassigned ↔ a = Heap.unassigned := by
      constructor
      · rintro rfl
        exact t.left_unique _ _ _ hab hunassigned
      · rintro rfl
        exact t.right_unique _ _ _ hab hunassigned
    dsimp only
    by_cases h : a = Heap.unassigned
    · rw [if_pos h, if_pos (heq.2 h)]
      exact .bind (.throw t.output)
    · rw [if_neg h, if_neg (mt heq.1 h)]
      exact t.leaves_push_advance hab
  · rw [ha, hb]
    exact .throw t.output

theorem twins_store (pos : Position) : LeavesTwins f (store pos) (store pos) m k := by
  have p := t.paired hm.toResting hm.inUse_root hk.toResting
  refine .bind (t.relates_peek fun a b ha hab => ?_)
  refine .bind (relates_registersNow (.bind (relates_onHeap ?_ fun _ _ => t.output)))
  unfold Relates Heap.assign
  dsimp only
  rcases p.slotOf? t.registers.environment hm.registers.tag pos with
    ⟨f, g, i, hf, hg, hfg⟩ | ⟨hf, hg⟩
  · obtain ⟨hin, htag, hpos, hlt⟩ := hm.heap.slotOf? hm.registers.inUse hm.registers.tag hf
    have q := p.setVariable hfg htag hpos hlt hab (hm.isValue_stack ha).2
    rw [hf, hg]
    exact (t.withHeap_rewritten hm.inUse_root q).leaves_advance
  · rw [hf, hg]
    exact .inr ⟨rfl, trivial⟩

/-! ## Scopes and loops -/

theorem twins_enterScope (slots : Nat) : LeavesTwins f (enterScope slots) (enterScope slots) m k := by
  have p := t.paired hm.toResting hm.inUse_root hk.toResting
  refine .bind (relates_registersNow (.bind (relates_onHeap ?_ fun _ _ => t.output)))
  refine (p.relates_newScope t.count t.registers.environment Sound.live_environment
    hm.registers.tag slots).mono ?_
  rintro ⟨block, inside⟩ h ⟨block', inside'⟩ h' ⟨σ, e, hblock, hinside⟩
  have u := t.evolved e
  exact relates_setRegisters ⟨σ, u.withRegisters ⟨u.registers.stack,
    congrArg (· + 1) u.registers.pc, hinside, .both hblock u.registers.frames⟩⟩

theorem twins_exitScope : LeavesTwins f exitScope exitScope m k := by
  have p := t.paired hm.toResting hm.inUse_root hk.toResting
  refine .bind (relates_registersNow ?_)
  have hframes := t.registers.frames
  have hkinds := hm.registers.frames
  generalize m.registers.frames = frames at hframes hkinds
  generalize k.registers.frames = frames' at hframes
  -- What is left of the stacks does not matter if there is a call frame on top of them.
  have hcalls : ∀ {a b : Address} {rest rest' : List Address}, m.heap.tag a = .callframe →
      k.heap.tag b = .callframe → LeavesTwins f
        (do
          setRegisters fun r => { r with frames := rest }
          if (← readHeap (·.tag a)) = .blockframe then
            let outside ← readHeap (·.word a 1)
            setRegisters fun r => { r with environment := outside }
          else throw (.type .notBlockframe))
        (do
          setRegisters fun r => { r with frames := rest' }
          if (← readHeap (·.tag b)) = .blockframe then
            let outside ← readHeap (·.word b 1)
            setRegisters fun r => { r with environment := outside }
          else throw (.type .notBlockframe)) m k := by
    intro a b rest rest' ha hb
    refine .bind (relates_setRegisters (.bind (relates_readHeap (hb.trans ha.symm) ?_)))
    have htag : (m.withRegisters { m.registers with frames := rest }).heap.tag a = .callframe := ha
    rw [if_neg (by rw [htag]; decide), if_neg (by rw [htag]; decide)]
    exact .throw t.output
  cases hframes with
  | bottom _ _ hpartners hhead =>
    cases hpartners with
    | nil => exact .throw t.output
    | cons hab _ =>
      have ha := (hhead _ rfl).1
      exact hcalls ha ((t.similar _ _ hab).tag.trans ha)
  | spent hcall _ _ hnext hrest =>
    obtain ⟨a, b, rest, rfl, hab, ha⟩ := hrest.head_right hnext
    exact hcalls hcall ((t.similar a b hab).tag.trans ha)
  | @both a b rest rest' hab hrest =>
    have u := t.withRegisters (r := { m.registers with frames := rest })
      (s := { k.registers with frames := rest' })
      ⟨t.registers.stack, t.registers.pc, t.registers.environment, hrest⟩
    have hout := p.outside hab (hkinds a (List.mem_cons_self ..)).2
    refine .bind (relates_setRegisters (.bind (relates_readHeap (t.similar a b hab).tag ?_)))
    split
    · exact .bind (relates_readPair (relates_setRegisters ⟨ρ, u.withRegisters
        ⟨u.registers.stack, u.registers.pc, hout, u.registers.frames⟩⟩))
    · exact .throw u.output

end

/-- The rule for an action that leaves sound twins behind, and for what follows it. -/
theorem LeavesTwins.andThen {x y : Action Unit} {next : Unit → Action α}
    {next' : Unit → Action β} {good : α → Machine → β → Machine → Prop} (h : LeavesTwins f x y m k)
    (left : LeavesSound x m) (right : LeavesSound y k)
    (hnext : ∀ σ m k, m.Sound → k.Sound → Twins f σ m k →
      Relates (next ()) (next' ()) m k good SameOutput) :
    Relates (x >>= next) (y >>= next') m k good SameOutput := by
  refine .bind ((h.with_both left right).mono ?_)
  rintro ⟨⟩ m' ⟨⟩ k' ⟨hm, hk, σ, t⟩
  exact hnext σ m' k' hm hk t

theorem twins_exitScopes (n : Nat) : ∀ {ρ : Pairing} {m k : Machine}, m.Sound → k.Sound →
    Twins f ρ m k → LeavesTwins f (exitScopes n) (exitScopes n) m k := by
  induction n with
  | zero => exact fun _ _ t => ⟨_, t⟩
  | succ n ih =>
    intro ρ m k hm hk t
    exact (twins_exitScope hm hk t).andThen hm.leaves_exitScope hk.leaves_exitScope
      fun _ _ _ hm hk t => ih hm hk t

/-- Two actions leave machines behind of which the first catches up with the second, and mean the
same for their threads. -/
def LeavesProgress (f : Footing) (x y : Action Progress) (m k : Machine) : Prop :=
  Relates x y m k (fun p m q k => ∃ σ, Catches f σ m k ∧ p.Matches σ q) SameOutput

theorem LeavesCaught.returns {x y : Action Unit} (h : LeavesCaught f x y m k) {p : Progress}
    (hp : ∀ σ, p.Matches σ p) :
    LeavesProgress f (do x; return p) (do y; return p) m k := by
  refine .bind (h.mono ?_)
  rintro - m' - k' ⟨σ, c⟩
  exact .pure ⟨σ, c, hp σ⟩

theorem LeavesTwins.caught {x y : Action Unit} (h : LeavesTwins f x y m k) :
    LeavesCaught f x y m k :=
  h.mono fun _ _ _ _ ⟨σ, t⟩ => ⟨σ, .even t⟩

theorem LeavesTwins.returns {x y : Action Unit} (h : LeavesTwins f x y m k) {p : Progress}
    (hp : ∀ σ, p.Matches σ p) :
    LeavesProgress f (do x; return p) (do y; return p) m k :=
  h.caught.returns hp

section

variable (hm : m.Sound) (hk : k.Sound) (t : Twins f ρ m k)
include hm hk t

theorem twins_leave {p q : Program} (hloop : ∀ pc, q.loopEndAfter pc = p.loopEndAfter pc)
    (isBreak : Bool) : LeavesProgress f (leave p isBreak) (leave q isBreak) m k := by
  refine .bind (relates_registersNow ?_)
  rw [t.registers.pc, hloop]
  cases p.loopEndAfter m.registers.pc with
  | found exit =>
    refine LeavesTwins.returns ?_ fun _ => rfl
    exact (twins_exitScopes _ hm hk t).andThen (Sound.leaves_exitScopes _ hm)
      (Sound.leaves_exitScopes _ hk) fun _ _ _ _ _ t => t.leaves_goTo _
  | outside => exact .throw t.output
  | unfinished => exact .pure ⟨ρ, .even t, rfl⟩

omit hm hk in
theorem twins_drop : LeavesTwins f drop drop m k :=
  .bind (t.relates_pop fun _ _ _ _ _ hrest => (t.stacked hrest).leaves_advance)

omit hm hk in
theorem twins_jumpUnless (target : Nat) :
    LeavesTwins f (jumpUnless target) (jumpUnless target) m k := by
  refine .bind (t.relates_pop fun a rest b rest' hab hrest => ?_)
  have u := t.stacked hrest
  have s := t.similar a b hab
  refine .bind (relates_readHeap s.bool? ?_)
  dsimp only
  split
  · exact u.leaves_advance
  · exact u.leaves_goTo target
  · exact .bind (relates_readHeap s.tag (.throw u.output))

/-! ## Functions -/

theorem twins_closure (arity entry : Nat) :
    LeavesTwins f (closure arity entry) (closure arity entry) m k := by
  have p := t.paired hm.toResting hm.inUse_root hk.toResting
  refine .bind (relates_registersNow (.bind (t.relates_gives ?_ fun _ _ _ _ _ t hab =>
    t.leaves_push_advance hab)))
  exact p.relates_newClosure t.count arity entry t.registers.environment Sound.live_environment
    hm.registers.tag

end

end Machine

end ChannelMachine
