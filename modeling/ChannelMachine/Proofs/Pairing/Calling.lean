import ChannelMachine.Proofs.Pairing.Instructions

/-!
# Calls and returns of twins

A call does the same on two machines that are twins, and so does a return, unless the first machine
returns to a spent frame: then it still has to catch up (`Machine.Catches`).

A call in the first machine may be a tail call in the second one if the next instruction returns.
The call frame that only the first machine pushes is spent, and a builtin is behind at once.
-/

namespace ChannelMachine

open Heap (Pairing Partners)

namespace Machine

variable {f : Footing} {ρ σ : Pairing} {m k : Machine}

/-! ## Returns -/

/-- The return stacks without the block frames on top. -/
theorem Twins.dropped (t : Twins f ρ m k) : f.Stands ρ m.heap
    (m.registers.frames.dropWhile fun a => m.heap.tag a = .blockframe)
    (k.registers.frames.dropWhile fun a => k.heap.tag a = .blockframe) := by
  refine t.registers.frames.dropWhile (fun a b hab => ?_) fun a ha => ?_
  · rw [(t.similar a b hab).tag]
  · rw [ha]
    decide

section

variable (hm : m.Sound) (hk : k.Sound) (t : Twins f ρ m k)
include hm hk t

/-- The first machine catches up after both have returned to their nearest call frames. -/
theorem Twins.catches_returned {call call' : Address} {rest rest' : List Address}
    (s : f.Stands ρ m.heap (call :: rest) (call' :: rest'))
    (hcall : m.heap.tag call = .callframe) :
    Catches f ρ (m.returned call rest) (k.returned call' rest') := by
  have p := t.paired hm.toResting hm.inUse_root hk.toResting
  have hreturned : ∀ {g : Footing} {a : Address} {l l' : List Address}, ρ a call' →
      m.heap.tag a = .callframe → g.Stands ρ m.heap l l' →
      Twins g ρ (m.returned a l) (k.returned call' l') := by
    intro g a l l' hab ha hl
    have hpayload := (t.similar a call' hab).payload (by rw [ha]; decide)
    exact t.withRegisters ⟨t.registers.stack, congrArg UInt32.toNat hpayload,
      p.outside hab (.inr ha), hl⟩
  generalize htop : call :: rest = top at s
  generalize htop' : call' :: rest' = top' at s
  induction s generalizing call rest with
  | bottom hleft hright hpartners hhead =>
    subst htop htop'
    cases hpartners with
    | cons hab hrest =>
      exact .out hleft.symm hright.symm (hhead _ rfl).2
        (hreturned hab hcall (Footing.stands_of_partners hrest))
  | both hab hrest =>
    cases htop
    cases htop'
    exact .even (hreturned hab hcall hrest)
  | @spent _ next blocks l l' _ hreturns hblocks hnext hbelow ih =>
    cases htop
    have hlength := hbelow.length_le
    refine .behind hreturns ?_ (dropWhile_of_callframe hblocks hnext) (ih hnext rfl htop')
    change f.left.length ≤ (blocks ++ next :: l).length
    rw [List.length_append]
    omega

/-- What is left of the return stacks at their nearest call frames. -/
theorem Twins.nearest :
    (m.registers.frames.dropWhile (fun a => m.heap.tag a ≠ .callframe) = [] ∧
      k.registers.frames.dropWhile (fun a => k.heap.tag a ≠ .callframe) = [] ∧ f.left = []) ∨
    ∃ call rest call' rest',
      m.registers.frames.dropWhile (fun a => m.heap.tag a ≠ .callframe) = call :: rest ∧
      k.registers.frames.dropWhile (fun a => k.heap.tag a ≠ .callframe) = call' :: rest' ∧
      Catches f ρ (m.returned call rest) (k.returned call' rest') := by
  have s := t.registers.frames.dropWhile
    (p := fun a => m.heap.tag a ≠ .callframe) (q := fun a => k.heap.tag a ≠ .callframe)
    (fun a b hab => by rw [(t.similar a b hab).tag]) (fun a ha => by simp [ha])
  have hcall := List.head?_dropWhile_not (fun a => decide (m.heap.tag a ≠ .callframe))
    m.registers.frames
  cases hleft : m.registers.frames.dropWhile fun a => m.heap.tag a ≠ .callframe with
  | nil =>
    rw [hleft] at s
    obtain ⟨hright, hbottom⟩ := s.eq_nil
    exact .inl ⟨rfl, hright, hbottom⟩
  | cons call rest =>
    rw [hleft] at s hcall
    have htag : m.heap.tag call = .callframe := by simpa using hcall
    obtain ⟨-, call', rest', hright, -, -⟩ := s.head_right htag
    rw [hright] at s
    exact .inr ⟨call, rest, call', rest', rfl, hright, t.catches_returned hm hk s htag⟩

theorem twins_ret : LeavesCaught f ret ret m k := by
  rcases t.nearest hm hk with ⟨hleft, hright, -⟩ | ⟨_, _, _, _, hleft, hright, hcatches⟩
  · refine .bind (relates_registersNow (.bind (relates_readPair ?_)))
    rw [hleft, hright]
    exact .bind (relates_setRegisters (.throw t.output))
  · exact .of_ok (ret_eq hleft) (ret_eq hright) ⟨ρ, hcatches⟩

/-- The first machine goes on to an instruction that returns, and the second one returns at once. -/
theorem twins_advance_ret (hreturns : f.returns (m.registers.pc + 1)) (hbottom : f.left ≠ []) :
    LeavesCaught f advance ret m k := by
  rcases t.nearest hm hk with ⟨-, -, hnil⟩ | ⟨_, _, _, _, hleft, hright, hcatches⟩
  · exact absurd hnil hbottom
  · exact .of_ok rfl (ret_eq hright)
      ⟨ρ, .behind hreturns t.registers.frames.length_le hleft hcatches⟩

end

/-! ## Builtins -/

/-- The condition on two values: they are partners, and the threads are still where they were. -/
def GivesTwins (f : Footing) (pc : Nat) (a : Address) (m : Machine) (b : Address) (k : Machine) :
    Prop :=
  m.registers.pc = pc ∧ ∃ σ, Twins f σ m k ∧ σ a b

theorem Twins.printed (t : Twins f ρ m k) (text : String) :
    Twins f ρ { m with output := m.output ++ text } { k with output := k.output ++ text } :=
  ⟨t.toMatched, t.count, t.registers, t.threads, t.current, t.nextThread, t.channels, t.groups,
    t.runnable, t.builtins, congrArg (· ++ text) t.output, t.typedChannels⟩

theorem twins_printAll {as bs : List Address} (hargs : Partners ρ as bs) :
    ∀ {m k : Machine}, Twins f ρ m k → Relates (printAll as) (printAll bs) m k
      (fun _ m' _ k' => Twins f ρ m' k' ∧ m'.registers.pc = m.registers.pc) SameOutput := by
  induction hargs with
  | nil => exact fun t => .pure ⟨t, rfl⟩
  | cons hab _ ih =>
    intro m k t
    exact .bind (relates_readHeap (t.similar _ _ hab).display (.bind (ih (t.printed _))))

section

variable (hm : m.Sound) (hk : k.Sound) (t : Twins f ρ m k)
include hm hk t

theorem twins_runBuiltin (b : Builtin) {as bs : List Address} (hargs : Partners ρ as bs) :
    Relates (runBuiltin b as) (runBuiltin b bs) m k (GivesTwins f m.registers.pc) SameOutput := by
  have p := t.paired hm.toResting hm.inUse_root hk.toResting
  have hnumber : ∀ x, Relates (onHeap (Heap.newNumber x)) (onHeap (Heap.newNumber x)) m k
      (GivesTwins f m.registers.pc) SameOutput := fun x =>
    t.relates_gives (p.relates_newNumber t.count x) fun σ _ _ _ _ t hab => ⟨rfl, σ, t, hab⟩
  have hneed : ∀ {γ : Type} {left right : Heap → Except Fault γ} {next : γ → Action Address},
      right k.heap = left m.heap → (∀ x, Relates (next x) (next x) m k (GivesTwins f m.registers.pc) SameOutput) →
      Relates (need left >>= next) (need right >>= next) m k (GivesTwins f m.registers.pc) SameOutput := by
    intro γ left right next heq hnext
    refine .bind (.bind (relates_readHeap heq ?_))
    cases left m.heap with
    | ok x => exact .pure (hnext x)
    | error e => exact .throw t.output
  have harity : ∀ (n : Nat) {as bs : List Address}, Partners ρ as bs →
      Relates (throw (.arity n as.length) : Action Address) (throw (.arity n bs.length)) m k
        (GivesTwins f m.registers.pc) SameOutput := by
    intro n as bs hargs
    rw [hargs.length_eq]
    exact .throw t.output
  have hundefined : ∀ {m' k' : Machine}, Twins f ρ m' k' → m'.registers.pc = m.registers.pc →
      GivesTwins f m.registers.pc Heap.undefined m' Heap.undefined k' :=
    fun u hpc => ⟨hpc, ρ, u, t.undefined hm.toResting⟩
  cases b with
  | print => exact .bind ((twins_printAll hargs t).mono fun _ _ _ _ u => .pure (hundefined u.1 u.2))
  | println =>
    exact .bind ((twins_printAll hargs t).mono fun _ _ _ _ u =>
      .bind (relates_update (.pure (hundefined (u.1.printed _) u.2))))
  | len =>
    cases hargs with
    | nil => exact harity _ .nil
    | cons hab hrest => exact hneed (p.lengthOf hab) fun _ => hnumber _
  | abs =>
    cases hargs with
    | nil => exact harity _ .nil
    | cons hab hrest => exact hneed (t.similar _ _ hab).needNumber fun _ => hnumber _
  | min =>
    cases hargs with
    | nil => exact harity _ .nil
    | cons hab hrest =>
      cases hrest with
      | nil => exact harity _ (.cons hab .nil)
      | cons hab' _ => exact hneed (t.toMatched.needNumbers hab hab') fun _ => hnumber _
  | max =>
    cases hargs with
    | nil => exact harity _ .nil
    | cons hab hrest =>
      cases hrest with
      | nil => exact harity _ (.cons hab .nil)
      | cons hab' _ => exact hneed (t.toMatched.needNumbers hab hab') fun _ => hnumber _
  | string =>
    cases hargs with
    | nil => exact harity _ .nil
    | cons hab hrest =>
      exact .bind (relates_readHeap (t.similar _ _ hab).display (t.relates_gives
        (p.relates_newString t.count _) fun σ _ _ _ _ t hab => ⟨rfl, σ, t, hab⟩))

omit hm hk in
theorem partners_arguments (n : Nat) :
    Partners ρ (m.registers.stack.take n).reverse (k.registers.stack.take n).reverse :=
  (t.registers.stack.take n).reverse

/-- What follows a builtin need not be the same in both machines. -/
theorem twins_callBuiltin (slot n : Nat) {tail tail' : Bool}
    (hlast : ∀ σ m' k', m'.Sound → k'.Sound → Twins f σ m' k' →
      m'.registers.pc = m.registers.pc →
      LeavesCaught f (if tail then ret else advance) (if tail' then ret else advance) m' k') :
    LeavesCaught f (callBuiltin slot n tail) (callBuiltin slot n tail') m k := by
  refine .bind (.get ?_)
  rw [t.builtins]
  cases m.builtins[slot]? with
  | none => exact .throw t.output
  | some entry =>
    have hrun : LeavesCaught f
        (do
          let result ← runBuiltin entry.action (← argumentsNow n)
          replace (n + 1) result
          if tail then ret else advance)
        (do
          let result ← runBuiltin entry.action (← argumentsNow n)
          replace (n + 1) result
          if tail' then ret else advance) m k := by
      refine .bind (.of_ok rfl rfl (.bind (((twins_runBuiltin hm hk t entry.action
        (partners_arguments t n)).with_both (hm.ensures_runBuiltin _ _)
        (hk.ensures_runBuiltin _ _)).mono ?_)))
      rintro a m' b k' ⟨⟨hm', ha⟩, ⟨hk', hb⟩, hpc, σ, u, hab⟩
      have v := u.stacked (.cons hab (u.registers.stack.drop (n + 1)))
      exact .bind (relates_setRegisters
        (hlast σ _ _ (hm'.replaced _ ha) (hk'.replaced _ hb) v hpc))
    by_cases harity : entry.arity ≠ n
    · simp only [if_pos harity]
      exact .bind (.throw t.output)
    · simp only [if_neg harity]
      exact hrun

/-! ## Calls -/

/-- The checks of a call of a function are the same in both machines. -/
theorem twins_checks {a b : Address} (hab : ρ a b) (hb : b ∈ k.registers.stack)
    (htag : m.heap.tag a = .closure) {n : Nat} {tail tail' : Bool}
    (h : ∀ captured captured', ρ captured captured' → m.heap.tag captured = .environment →
      k.heap.Live k.roots captured' → LeavesTwins f
        (enterFunction captured (m.heap.payload a).toNat n tail)
        (enterFunction captured' (m.heap.payload a).toNat n tail') m k) :
    LeavesTwins f (callClosure a n tail) (callClosure b n tail') m k := by
  have p : Heap.Paired ρ m.heap k.heap (Thunk.get (threadRoots m.registers m.threads : Roots))
      (Thunk.get (threadRoots k.registers k.threads : Roots)) :=
    t.paired hm.toResting hm.inUse_root hk.toResting
  have s := t.similar a b hab
  refine .bind (relates_readHeap (s.arity htag) ?_)
  by_cases harity : m.heap.word a 1 ≠ n
  · simp only [if_pos harity]
    exact .bind (.throw t.output)
  simp only [if_neg harity]
  refine .bind (relates_readHeap (s.payload (by rw [htag]; decide)) (.bind (relates_readPair ?_)))
  exact h _ _ (p.captured hab htag) (hm.heap.word_closure (t.left_inUse a b hab) htag).1
    ((hk.heap.word_closure (t.right_inUse a b hab) (s.tag.trans htag)).2 _ (Sound.live_stack hb))

theorem twins_callClosure {a b : Address} (hab : ρ a b) (hb : b ∈ k.registers.stack)
    (htag : m.heap.tag a = .closure) (n : Nat) (tail : Bool) :
    LeavesTwins f (callClosure a n tail) (callClosure b n tail) m k := by
  have p : Heap.Paired ρ m.heap k.heap (Thunk.get (threadRoots m.registers m.threads : Roots))
      (Thunk.get (threadRoots k.registers k.threads : Roots)) :=
    t.paired hm.toResting hm.inUse_root hk.toResting
  have hargs := partners_arguments t n
  refine twins_checks hm hk t hab hb htag fun captured captured' hcd hctag hcaptured =>
    .bind (.of_ok rfl rfl ?_)
  cases tail with
  | true =>
    refine .bind (t.relates_gives (p.relates_newArguments t.count hcd hcaptured hctag hargs
      (hk.live_arguments n)) fun σ inside h inside' h' u hinside => ?_)
    refine .bind (relates_registersNow (.bind (relates_readPair (relates_setRegisters
      ⟨σ, u.withRegisters ⟨u.registers.stack.drop _, rfl, hinside, u.dropped⟩⟩))))
  | false =>
    refine .bind (relates_registersNow (.bind (relates_onHeap ?_ fun _ _ => t.output)))
    rw [t.registers.pc]
    refine (p.relates_newCall t.count (m.registers.pc + 1) t.registers.environment
      Sound.live_environment hm.registers.tag hcd hcaptured hctag hargs
      (hk.live_arguments n)).mono ?_
    rintro ⟨frame, inside⟩ h ⟨frame', inside'⟩ h' ⟨σ, e, hframe, hinside⟩
    have u := t.evolved e
    exact relates_setRegisters ⟨σ, u.withRegisters ⟨u.registers.stack.drop _, rfl,
      hinside, .both hframe u.registers.frames⟩⟩

/-- Only the first machine pushes a call frame, which is spent. -/
theorem twins_callClosure_spent {a b : Address} (hab : ρ a b) (hb : b ∈ k.registers.stack)
    (htag : m.heap.tag a = .closure) (n : Nat) (hreturns : f.returns (m.registers.pc + 1))
    (hpc : m.registers.pc + 1 < UInt32.size) (hbottom : f.left ≠ []) :
    LeavesTwins f (callClosure a n false) (callClosure b n true) m k := by
  have p : Heap.Paired ρ m.heap k.heap (Thunk.get (threadRoots m.registers m.threads : Roots))
      (Thunk.get (threadRoots k.registers k.threads : Roots)) :=
    t.paired hm.toResting hm.inUse_root hk.toResting
  have hargs := partners_arguments t n
  refine twins_checks hm hk t hab hb htag fun captured captured' hcd hctag hcaptured =>
    .bind (.of_ok rfl rfl ?_)
  rw [if_neg Bool.false_ne_true, if_pos rfl]
  have hnow : Ensures registersNow m (fun r m' => m = m' ∧ r = m.registers)
      (fun e _ => e = .heapExhausted) := ensures_registersNow ⟨rfl, rfl⟩
  refine .bind_left hnow ?_
  rintro _ _ ⟨rfl, rfl⟩
  have hcall := hm.heap.newCall_ensures hm.inUse_roots (m.registers.pc + 1) Sound.live_environment
    hm.registers.tag (p.live_left hcd hcaptured) hctag (hm.live_arguments n)
  have hspent := p.relates_newCall_spent t.count (m.registers.pc + 1) Sound.live_environment
    hm.registers.tag hcd hcaptured hctag hargs (hk.live_arguments n)
  refine .bind (relates_onHeap ((hspent.with_left hcall).mono ?_) fun _ _ => t.output)
  rintro ⟨frame, inside⟩ h inside' h' ⟨⟨new, -⟩, σ, e, hinside⟩
  have u := t.evolved e
  have alike := alike_withHeap m h
  have hframe : (m.withHeap h).heap.tag frame = .callframe := (alike.tag frame).trans new.tag
  have hresume : ((m.withHeap h).heap.payload frame).toNat = m.registers.pc + 1 := by
    rw [Heap.payload, alike.header, new.header]
    exact UInt32.toNat_ofNat_of_lt' hpc
  refine .of_ok rfl rfl ⟨σ, u.withRegisters ⟨u.registers.stack.drop _, rfl, hinside, ?_⟩⟩
  exact u.dropped.push_spent (fun a ha => ((hm.withHeap e.left).registers.frames a ha).2) hframe
    (hresume.symm ▸ hreturns) hbottom

theorem twins_call (n : Nat) (tail : Bool) : LeavesCaught f (call n tail) (call n tail) m k := by
  refine .bind (t.relates_peek fun a b ha hab => ?_)
  have s := t.similar a b hab
  have hb := t.mem_stack (List.mem_of_getElem? ha) hab
  refine .bind (relates_readHeap s.tag ?_)
  cases htag : m.heap.tag a with
  | builtin =>
    refine .bind (relates_readHeap (s.payload (by rw [htag]; decide))
      (twins_callBuiltin hm hk t _ n fun σ m' k' hm' hk' t' _ => ?_))
    split
    · exact twins_ret hm' hk' t'
    · exact t'.leaves_advance.caught
  | closure => exact (twins_callClosure hm hk t hab hb htag n tail).caught
  | _ => exact .throw t.output

/-- A call and a tail call, where the next instruction returns. -/
theorem twins_call_spent (n : Nat) (hreturns : f.returns (m.registers.pc + 1))
    (hpc : m.registers.pc + 1 < UInt32.size) (hbottom : f.left ≠ []) :
    LeavesCaught f (call n false) (call n true) m k := by
  refine .bind (t.relates_peek fun a b ha hab => ?_)
  have s := t.similar a b hab
  have hb := t.mem_stack (List.mem_of_getElem? ha) hab
  refine .bind (relates_readHeap s.tag ?_)
  cases htag : m.heap.tag a with
  | builtin =>
    refine .bind (relates_readHeap (s.payload (by rw [htag]; decide))
      (twins_callBuiltin hm hk t _ n fun σ m' k' hm' hk' t' hsame => ?_))
    exact twins_advance_ret hm' hk' t' (hsame.symm ▸ hreturns) hbottom
  | closure =>
    exact (twins_callClosure_spent hm hk t hab hb htag n hreturns hpc hbottom).caught
  | _ => exact .throw t.output

/-! ## Threads -/

omit hk in
theorem twins_spawn (n : Nat) : LeavesTwins f (spawn n) (spawn n) m k := by
  refine .bind (relates_registersNow ?_)
  rw [← t.registers.stack.length_eq, t.registers.pc]
  by_cases hlt : m.registers.stack.length < n + 1
  · simp only [if_pos hlt]
    exact .bind (.throw t.output)
  simp only [if_neg hlt]
  refine .bind (relates_update ?_)
  have hnew : Registers.Matches ρ
      ⟨m.registers.stack.take (n + 1), m.registers.pc + 1, m.registers.environment, []⟩
      ⟨k.registers.stack.take (n + 1), m.registers.pc + 1, k.registers.environment, []⟩ :=
    ⟨t.registers.stack.take _, rfl, t.registers.environment, .nil⟩
  have u : Twins f ρ
      { m with
        threads := m.threads.insert m.nextThread ⟨m.registers.stack.take (n + 1),
          m.registers.pc + 1, m.registers.environment, []⟩
        nextThread := m.nextThread + 1
        runnable := m.runnable ++ [m.nextThread] }
      { k with
        threads := k.threads.insert k.nextThread ⟨k.registers.stack.take (n + 1),
          m.registers.pc + 1, k.registers.environment, []⟩
        nextThread := k.nextThread + 1
        runnable := k.runnable ++ [k.nextThread] } := by
    refine ⟨t.toMatched, t.count, t.registers, fun v => ?_, t.current, congrArg (· + 1) t.nextThread,
      t.channels, t.groups, ?_, t.builtins, t.output, t.typedChannels⟩
    · change Option.Rel _ (m.threads.insert m.nextThread _)[v]? (k.threads.insert k.nextThread _)[v]?
      rw [t.nextThread, Std.TreeMap.getElem?_insert, Std.TreeMap.getElem?_insert]
      split
      · exact .some hnew
      · exact t.threads v
    · change k.runnable ++ [k.nextThread] = m.runnable ++ [m.nextThread]
      rw [t.runnable, t.nextThread]
  have v := u.noted (.spawned m.nextThread m.current) (.spawned k.nextThread k.current)
  refine .bind (relates_setRegisters ?_)
  exact (v.stacked (.cons (t.undefined hm.toResting)
    (v.registers.stack.drop _))).leaves_goTo _

end

end Machine

end ChannelMachine
