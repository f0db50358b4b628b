import ChannelMachine.Proofs.Source.Compiled

/-!
# The arrangement of compiled code

The machine relies on how the compiler arranges code: that addresses are those of instructions,
that the body of a function stands behind a jump over it and is entered by calls alone, that scopes
are nested, and that the end of a loop stands in front of the end of its scope.  `Arranged` says all
that of a program, and the program of every module is arranged (`Module.arranges_code`).

A program is one segment and an instruction that ends the run.  What stands at an index of a segment
(`Segment.exists_stands`) gives most of it.  That nothing goes into the body of a function from
outside (`Segment.stays_out`) takes an induction over the segments, since a jump may cross a body
but must not end in it.
-/

namespace ChannelMachine

/-! ## Where the control flow goes -/

/-- The indices of instructions in an instruction. -/
def Instruction.addresses : Instruction → List Nat
  | .jump target | .jumpUnless target | .closure _ target | .loopEnd target => [target]
  | _ => []

/-- Whether scopes are the same behind an instruction, which is no function either. -/
def Instruction.keepsScopes : Instruction → Bool
  | .enterScope _ | .exitScope | .closure .. => false
  | _ => true

namespace Program

/-- Where threads go on behind an instruction, calls and returns apart.  What is called comes back
behind the call.  A new thread starts behind the instruction that starts it. -/
def successors (p : Program) (pc : Nat) : List Nat :=
  match p.at? pc with
  | some (.jump target) => [target]
  | some (.jumpUnless target) => [pc + 1, target]
  | some .breakLoop =>
      match p.loopEndAfter pc with
      | .found exit => [exit.marker + 1]
      | .outside | .unfinished => []
  | some .continueLoop =>
      match p.loopEndAfter pc with
      | .found exit => [exit.next]
      | .outside | .unfinished => []
  | some (.spawn _) => [pc + 1, pc + 3]
  | some (.tailCall _) | some .ret | some .endThread | some .halt | none => []
  | some _ => [pc + 1]

/-- Between two indices scopes are opened and closed in turn, with the bodies of functions
skipped. -/
inductive Nested (p : Program) : Nat → Nat → Prop where
  /-- No code. -/
  | nil (s : Nat) : p.Nested s s
  /-- An instruction that opens and closes nothing. -/
  | step {s t : Nat} {i : Instruction} (here : p.at? s = some i) (keeps : i.keepsScopes = true)
      (rest : p.Nested (s + 1) t) : p.Nested s t
  /-- A function. -/
  | skip {s t u arity entry : Nat} (here : p.at? s = some (.closure arity entry))
      (across : p.at? (s + 1) = some (.jump t)) (rest : p.Nested t u) : p.Nested s u
  /-- A scope. -/
  | scope {s t u slots : Nat} (opens : p.at? s = some (.enterScope slots))
      (code : p.Nested (s + 1) t) (closes : p.at? t = some .exitScope) (rest : p.Nested (t + 1) u) :
      p.Nested s u

theorem Nested.append {p : Program} {s t u : Nat} (first : p.Nested s t) (second : p.Nested t u) :
    p.Nested s u := by
  induction first with
  | nil => exact second
  | step here keeps _ ih => exact .step here keeps (ih second)
  | skip here across _ ih => exact .skip here across (ih second)
  | scope opens code closes _ _ ih => exact .scope opens code closes (ih second)

theorem Nested.one {p : Program} {s : Nat} {i : Instruction} (here : p.at? s = some i)
    (keeps : i.keepsScopes = true) : p.Nested s (s + 1) :=
  .step here keeps (.nil _)

end Program

theorem Instruction.keepsScopes_of_isStraight {i : Instruction} (h : i.isStraight = true) :
    i.keepsScopes = true := by
  cases i <;> first | rfl | cases h

theorem Instruction.addresses_of_isStraight {i : Instruction} (h : i.isStraight = true) :
    i.addresses = [] := by
  cases i <;> first | rfl | cases h

namespace Source

/-! ## What is relied on -/

/-- How the code of a module is arranged. -/
structure Arranged (m : Module) (p : Program) : Prop where
  /-- Addresses are indices of instructions. -/
  addresses : ∀ {pc : Nat} {i : Instruction}, p.at? pc = some i → ∀ a ∈ i.addresses, a < p.code.size
  /-- The body of a function stands behind a jump over it.  It ends with a return, its scopes are
  nested, and nothing goes in or out but calls and returns. -/
  functions : ∀ {pc arity entry : Nat}, p.at? pc = some (.closure arity entry) → entry = pc + 2 ∧
    ∃ last, entry ≤ last ∧ p.at? (pc + 1) = some (.jump (last + 1)) ∧ p.at? last = some .ret ∧
      p.Nested entry (last + 1) ∧
      ∀ k, ∀ a ∈ p.successors k, (entry ≤ k ∧ k ≤ last ↔ entry ≤ a ∧ a ≤ last)
  /-- A new thread calls its function and ends. -/
  spawns : ∀ {pc n : Nat}, p.at? pc = some (.spawn n) →
    p.at? (pc + 1) = some (.call n) ∧ p.at? (pc + 2) = some .endThread
  /-- The scopes of the module are nested. -/
  nested : p.Nested 0 p.code.size
  /-- The end of a loop stands in front of the end of its scope, and the next round starts in it. -/
  loops : ∀ {pc next : Nat}, p.at? pc = some (.loopEnd next) → ∃ start slots,
    m.enclosing[pc]? = some (some ⟨⟨start, next, pc⟩, 0⟩) ∧
      p.at? start = some (.enterScope slots) ∧ p.Nested (start + 1) (pc + 1) ∧
      p.at? (pc + 1) = some .exitScope ∧ start < next ∧ next ≤ pc
  /-- The run ends behind all other instructions, and only there. -/
  halts : ∀ {pc : Nat}, p.at? pc = some .halt ↔ pc + 1 = p.code.size

/-! ## What stands in a segment -/

variable {p : Program} {loops : Nat → Option (Option Inside)} {w : Option LoopPlace} {s t : Nat}

/-- Code between two indices may go to them, in between, and to the places of the loop around. -/
def Reach (w : Option LoopPlace) (s t a : Nat) : Prop :=
  (s ≤ a ∧ a ≤ t) ∨ ∃ place, w = some place ∧
    (a = place.next ∨ a = place.marker ∨ a = place.marker + 1)

theorem Reach.mono {s' t' a : Nat} (h : Reach w s t a) (hs : s' ≤ s) (ht : t ≤ t') :
    Reach w s' t' a :=
  h.imp_left fun ⟨h₁, h₂⟩ => ⟨Nat.le_trans hs h₁, Nat.le_trans h₂ ht⟩

/-- What stands at an index of a segment. -/
inductive Stands (p : Program) (loops : Nat → Option (Option Inside)) (w : Option LoopPlace)
    (s t k : Nat) : Instruction → Prop where
  /-- An instruction that stands for itself. -/
  | straight {i : Instruction} (straight : i.isStraight = true) : Stands p loops w s t k i
  /-- The start of a scope. -/
  | enterScope (slots : Nat) : Stands p loops w s t k (.enterScope slots)
  /-- The end of a scope. -/
  | exitScope : Stands p loops w s t k .exitScope
  /-- A jump. -/
  | jump {a : Nat} (reach : Reach w s t a) : Stands p loops w s t k (.jump a)
  /-- A jump after a test. -/
  | jumpUnless {a : Nat} (reach : Reach w s t a) : Stands p loops w s t k (.jumpUnless a)
  /-- A function, whose body is a segment of its own. -/
  | closure {arity last : Nat} (across : p.at? (k + 1) = some (.jump (last + 1)))
      (body : Segment p loops none (k + 2) last) (returns : p.at? last = some .ret)
      (inside : last < t) : Stands p loops w s t k (.closure arity (k + 2))
  /-- A new thread is started. -/
  | spawn {n : Nat} (calls : p.at? (k + 1) = some (.call n))
      (ends : p.at? (k + 2) = some .endThread) (inside : k + 3 ≤ t) :
      Stands p loops w s t k (.spawn n)
  /-- The end of a new thread. -/
  | endThread : Stands p loops w s t k .endThread
  /-- A loop is left. -/
  | breakLoop (reach : ∀ i, loops k = some (some i) → Reach w s t (i.loop.marker + 1)) :
      Stands p loops w s t k .breakLoop
  /-- A loop goes on. -/
  | continueLoop (reach : ∀ i, loops k = some (some i) → Reach w s t i.loop.next) :
      Stands p loops w s t k .continueLoop
  /-- The end of a loop. -/
  | loopEnd {start next slots : Nat} (inside : loops k = some (some ⟨⟨start, next, k⟩, 0⟩))
      (opens : p.at? start = some (.enterScope slots)) (code : p.Nested (start + 1) k)
      (closes : p.at? (k + 1) = some .exitScope) (after : start < next) (before : next ≤ k) :
      Stands p loops w s t k (.loopEnd next)

/-- What stands in a part of a segment stands in all of it, from where as much can be reached. -/
theorem Stands.mono {w' : Option LoopPlace} {s' t' k : Nat} {i : Instruction}
    (h : Stands p loops w s t k i) (ht : t ≤ t') (hreach : ∀ a, Reach w s t a → Reach w' s' t' a) :
    Stands p loops w' s' t' k i := by
  cases h with
  | straight straight => exact .straight straight
  | enterScope slots => exact .enterScope slots
  | exitScope => exact .exitScope
  | jump reach => exact .jump (hreach _ reach)
  | jumpUnless reach => exact .jumpUnless (hreach _ reach)
  | closure across body returns inside =>
    exact .closure across body returns (Nat.lt_of_lt_of_le inside ht)
  | spawn calls ends inside => exact .spawn calls ends (Nat.le_trans inside ht)
  | endThread => exact .endThread
  | breakLoop reach => exact .breakLoop fun i hi => hreach _ (reach i hi)
  | continueLoop reach => exact .continueLoop fun i hi => hreach _ (reach i hi)
  | loopEnd inside opens code closes after before =>
    exact .loopEnd inside opens code closes after before

namespace Segment

theorem le (h : Segment p loops w s t) : s ≤ t := by
  induction h with
  | nil => exact Nat.le_refl _
  | straight | breakLoop | continueLoop | test => exact Nat.le_succ _
  | append _ _ ih₁ ih₂ => exact Nat.le_trans ih₁ ih₂
  | _ => omega

theorem nested (h : Segment p loops w s t) : p.Nested s t := by
  induction h with
  | nil => exact .nil _
  | straight here straight => exact .one here (Instruction.keepsScopes_of_isStraight straight)
  | append _ _ ih₁ ih₂ => exact ih₁.append ih₂
  | skipped here _ ih => exact .step here rfl ih
  | branches here _ across _ ih₁ ih₂ => exact .step here rfl (ih₁.append (.step across rfl ih₂))
  | scope opens _ closes ih => exact .scope opens ih closes (.nil _)
  | function closure across _ _ _ => exact .skip closure across (.nil _)
  | spawn spawns calls ends => exact .step spawns rfl (.step calls rfl (.one ends rfl))
  | breakLoop here | continueLoop here => exact .one here rfl
  | test here => exact .one here rfl
  | loop opens _ _ _ again ends _ closes ih₁ ih₂ ih₃ =>
    have code := ((ih₁.append ih₂).append ih₃).append (.step again rfl (.one ends rfl))
    exact .scope opens code closes (.nil _)

theorem exists_stands (h : Segment p loops w s t) {k : Nat} (hs : s ≤ k) (ht : k < t) :
    ∃ i, p.at? k = some i ∧ Stands p loops w s t k i := by
  induction h with
  | nil => omega
  | straight here straight =>
    obtain rfl : k = _ := Nat.le_antisymm (Nat.lt_succ_iff.1 ht) hs
    exact ⟨_, here, .straight straight⟩
  | @append w s m t first second ih₁ ih₂ =>
    have hle := first.le
    have hle' := second.le
    rcases Nat.lt_or_ge k m with hm | hm
    · obtain ⟨i, hi, stands⟩ := ih₁ hs hm
      exact ⟨i, hi, stands.mono hle' fun a ha => ha.mono (Nat.le_refl _) hle'⟩
    · obtain ⟨i, hi, stands⟩ := ih₂ hm ht
      exact ⟨i, hi, stands.mono (Nat.le_refl _) fun a ha => ha.mono hle (Nat.le_refl _)⟩
  | @skipped w s t here code ih =>
    rcases Nat.eq_or_lt_of_le hs with rfl | hk
    · exact ⟨_, here, .jumpUnless (.inl ⟨by omega, Nat.le_refl _⟩)⟩
    · obtain ⟨i, hi, stands⟩ := ih hk ht
      exact ⟨i, hi, stands.mono (Nat.le_refl _) fun a ha => ha.mono (Nat.le_succ _) (Nat.le_refl _)⟩
  | @branches w s m t here first across second ih₁ ih₂ =>
    have hle := first.le
    have hle' := second.le
    rcases Nat.eq_or_lt_of_le hs with rfl | hk
    · exact ⟨_, here, .jumpUnless (.inl ⟨by omega, hle'⟩)⟩
    rcases Nat.lt_trichotomy k m with hm | rfl | hm
    · obtain ⟨i, hi, stands⟩ := ih₁ hk hm
      exact ⟨i, hi, stands.mono (by omega) fun a ha => ha.mono (Nat.le_succ _) (by omega)⟩
    · exact ⟨_, across, .jump (.inl ⟨by omega, Nat.le_refl _⟩)⟩
    · obtain ⟨i, hi, stands⟩ := ih₂ hm ht
      exact ⟨i, hi, stands.mono (Nat.le_refl _) fun a ha => ha.mono (by omega) (Nat.le_refl _)⟩
  | @scope w s m slots opens code closes ih =>
    rcases Nat.eq_or_lt_of_le hs with rfl | hk
    · exact ⟨_, opens, .enterScope slots⟩
    rcases Nat.eq_or_lt_of_le (Nat.lt_succ_iff.1 ht) with rfl | hm
    · exact ⟨_, closes, .exitScope⟩
    · obtain ⟨i, hi, stands⟩ := ih hk hm
      exact ⟨i, hi, stands.mono (Nat.le_succ _) fun a ha => ha.mono (Nat.le_succ _) (Nat.le_succ _)⟩
  | @function w s m arity closure across body returns ih =>
    have hle := body.le
    rcases Nat.eq_or_lt_of_le hs with rfl | hk
    · exact ⟨_, closure, .closure across body returns (Nat.lt_succ_self _)⟩
    rcases Nat.eq_or_lt_of_le hk with rfl | hk
    · exact ⟨_, across, .jump (.inl ⟨by omega, Nat.le_refl _⟩)⟩
    rcases Nat.eq_or_lt_of_le (Nat.lt_succ_iff.1 ht) with rfl | hm
    · exact ⟨_, returns, .straight rfl⟩
    · obtain ⟨i, hi, stands⟩ := ih hk hm
      refine ⟨i, hi, stands.mono (Nat.le_succ _) ?_⟩
      rintro a (ha | ⟨_, ⟨⟩, -⟩)
      exact .inl ⟨by omega, by omega⟩
  | @spawn w s n spawns calls ends =>
    rcases Nat.eq_or_lt_of_le hs with rfl | hk
    · exact ⟨_, spawns, .spawn calls ends (Nat.le_refl _)⟩
    rcases Nat.eq_or_lt_of_le hk with rfl | hk
    · exact ⟨_, calls, .straight rfl⟩
    · obtain rfl : k = s + 2 := by omega
      exact ⟨_, ends, .endThread⟩
  | breakLoop here inside =>
    obtain rfl : k = _ := Nat.le_antisymm (Nat.lt_succ_iff.1 ht) hs
    refine ⟨_, here, .breakLoop fun i hi => .inr ⟨i.loop, ?_, .inr (.inr rfl)⟩⟩
    rw [hi] at inside
    exact (Option.some.inj inside).symm
  | continueLoop here inside =>
    obtain rfl : k = _ := Nat.le_antisymm (Nat.lt_succ_iff.1 ht) hs
    refine ⟨_, here, .continueLoop fun i hi => .inr ⟨i.loop, ?_, .inl rfl⟩⟩
    rw [hi] at inside
    exact (Option.some.inj inside).symm
  | @test place s here =>
    obtain rfl : k = _ := Nat.le_antisymm (Nat.lt_succ_iff.1 ht) hs
    exact ⟨_, here, .jumpUnless (.inr ⟨place, rfl, .inr (.inl rfl)⟩)⟩
  | @loop w s m u v slots opens first round after again ends inside closes ih₁ ih₂ ih₃ =>
    have hle₁ := first.le
    have hle₂ := round.le
    have hle₃ := after.le
    -- What the parts of a loop reach is in the loop.
    have hreach : ∀ {x y a : Nat}, Reach (some ⟨s, u, v + 1⟩) x y a → s ≤ x → y ≤ v →
        Reach w s (v + 3) a := by
      rintro x y a (ha | ⟨place, hplace, ha⟩) hx hy
      · exact .inl ⟨by omega, by omega⟩
      · obtain rfl := Option.some.inj hplace
        simp only at ha
        exact .inl ⟨by omega, by omega⟩
    rcases Nat.eq_or_lt_of_le hs with rfl | hk
    · exact ⟨_, opens, .enterScope slots⟩
    rcases Nat.lt_or_ge k m with hm | hm
    · obtain ⟨i, hi, stands⟩ := ih₁ hk hm
      exact ⟨i, hi, stands.mono (by omega) fun a ha => hreach ha (by omega) (by omega)⟩
    rcases Nat.lt_or_ge k u with hu | hu
    · obtain ⟨i, hi, stands⟩ := ih₂ hm hu
      exact ⟨i, hi, stands.mono (by omega) fun a ha => hreach ha (by omega) (by omega)⟩
    rcases Nat.lt_trichotomy k v with hv | rfl | hv
    · obtain ⟨i, hi, stands⟩ := ih₃ hu hv
      exact ⟨i, hi, stands.mono (by omega) fun a ha => hreach ha (by omega) (by omega)⟩
    · exact ⟨_, again, .jump (.inl ⟨by omega, by omega⟩)⟩
    rcases Nat.eq_or_lt_of_le hv with rfl | hv
    · have code := ((first.nested.append round.nested).append after.nested).append
        (.one again rfl)
      exact ⟨_, ends, .loopEnd inside opens code closes (by omega) (by omega)⟩
    · obtain rfl : k = v + 2 := by omega
      exact ⟨_, closes, .exitScope⟩

end Segment

/-! ## Bodies of functions -/

/-- The loops that are left and gone on with are those that are found. -/
def Finds (p : Program) (loops : Nat → Option (Option Inside)) : Prop :=
  ∀ k, p.at? k = some .breakLoop ∨ p.at? k = some .continueLoop → ∃ i, loops k = some (some i) ∧
    p.loopEndAfter k = .found ⟨i.loop.marker, i.loop.next, i.scopes⟩

theorem mem_successors_of_isStraight {k a : Nat} {i : Instruction} (hi : p.at? k = some i)
    (straight : i.isStraight = true) (ha : a ∈ p.successors k) : a = k + 1 := by
  rw [Program.successors, hi] at ha
  cases i with
  | tailCall | ret => cases ha
  | closure | enterScope | exitScope | jumpUnless | jump | loopEnd | breakLoop | continueLoop
  | spawn | endThread | halt => cases straight
  | _ => exact List.mem_singleton.1 ha

namespace Segment

variable {k a : Nat}

/-- The code of a segment goes to what it reaches. -/
theorem reach_of_mem_successors (h : Segment p loops w s t) (finds : Finds p loops) (hs : s ≤ k)
    (ht : k < t) (ha : a ∈ p.successors k) : Reach w s t a := by
  have hnext : Reach w s t (k + 1) := .inl ⟨by omega, by omega⟩
  obtain ⟨i, hi, stands⟩ := h.exists_stands hs ht
  cases stands with
  | straight straight =>
    obtain rfl := mem_successors_of_isStraight hi straight ha
    exact hnext
  | enterScope | exitScope | closure | loopEnd =>
    rw [Program.successors, hi] at ha
    obtain rfl := List.mem_singleton.1 ha
    exact hnext
  | jump reach =>
    rw [Program.successors, hi] at ha
    obtain rfl := List.mem_singleton.1 ha
    exact reach
  | jumpUnless reach =>
    rw [Program.successors, hi] at ha
    rcases List.mem_cons.1 ha with rfl | ha
    · exact hnext
    · obtain rfl := List.mem_singleton.1 ha
      exact reach
  | spawn calls ends inside =>
    rw [Program.successors, hi] at ha
    rcases List.mem_cons.1 ha with rfl | ha
    · exact hnext
    · obtain rfl := List.mem_singleton.1 ha
      exact .inl ⟨by omega, inside⟩
  | endThread =>
    rw [Program.successors, hi] at ha
    cases ha
  | breakLoop reach =>
    obtain ⟨i, hinside, hfound⟩ := finds k (.inl hi)
    rw [Program.successors, hi, hfound] at ha
    obtain rfl := List.mem_singleton.1 ha
    exact reach i hinside
  | continueLoop reach =>
    obtain ⟨i, hinside, hfound⟩ := finds k (.inr hi)
    rw [Program.successors, hi, hfound] at ha
    obtain rfl := List.mem_singleton.1 ha
    exact reach i hinside

/-- Where a loop around a segment goes on and where it ends is not inside of the segment. -/
def Outside (w : Option LoopPlace) (s t : Nat) : Prop :=
  ∀ place, w = some place → (place.next ≤ s ∨ t ≤ place.next) ∧ t ≤ place.marker

theorem Outside.part (outside : Outside w s t) {x y : Nat} (hx : s ≤ x) (hy : y ≤ t) :
    Outside w x y := by
  intro place hplace
  obtain ⟨hnext, hmarker⟩ := outside place hplace
  omega

/-- Code goes to where it is or out of the segment that it is in. -/
theorem Outside.cases (outside : Outside w s t) {x y : Nat} (h : Reach w x y a) :
    (x ≤ a ∧ a ≤ y) ∨ a ≤ s ∨ t ≤ a := by
  rcases h with h | ⟨place, hplace, h⟩
  · exact .inl h
  · obtain ⟨hnext, hmarker⟩ := outside place hplace
    omega

/-- The body of a function is in the segment that the function is in. -/
theorem body_lt (h : Segment p loops w s t) {c arity last : Nat}
    (closure : p.at? c = some (.closure arity (c + 2)))
    (across : p.at? (c + 1) = some (.jump (last + 1))) (hs : s ≤ c) (ht : c < t) : last < t := by
  obtain ⟨i, hi, stands⟩ := h.exists_stands hs ht
  obtain rfl := Option.some.inj (hi.symm.trans closure)
  cases stands with
  | straight straight => cases straight
  | closure across' body returns inside =>
    obtain heq := Instruction.jump.inj (Option.some.inj (across'.symm.trans across))
    omega

/-- No code outside of the body of a function goes into it. -/
theorem stays_out (h : Segment p loops w s t) (finds : Finds p loops) (outside : Outside w s t)
    {c arity last : Nat} (closure : p.at? c = some (.closure arity (c + 2)))
    (across : p.at? (c + 1) = some (.jump (last + 1))) (hcs : s ≤ c) (hct : c < t) (hks : s ≤ k)
    (hkt : k < t) (hk : k < c + 2 ∨ last < k) (ha : a ∈ p.successors k) : a < c + 2 ∨ last < a := by
  -- An instruction that is there is no function.
  have hno : ∀ {x : Nat} {i : Instruction}, p.at? x = some i →
      i ≠ .closure arity (c + 2) → x ≠ c := by
    rintro x i hx hi rfl
    exact hi (Option.some.inj (hx.symm.trans closure))
  induction h with
  | nil => omega
  | straight here straight =>
    obtain rfl : k = _ := Nat.le_antisymm (Nat.lt_succ_iff.1 hkt) hks
    exact absurd (by omega) (hno here fun h => by rw [h] at straight; cases straight)
  | @append w s m t first second ih₁ ih₂ =>
    have hle := first.le
    have hle' := second.le
    have outside₁ := outside.part (Nat.le_refl _) hle'
    have outside₂ := outside.part hle (Nat.le_refl _)
    rcases Nat.lt_or_ge c m with hc | hc
    · have hlast := first.body_lt closure across hcs hc
      rcases Nat.lt_or_ge k m with hm | hm
      · exact ih₁ outside₁ hcs hc hks hm
      · have := outside.cases (second.reach_of_mem_successors finds hm hkt ha)
        omega
    · have hlast := second.body_lt closure across hc hct
      rcases Nat.lt_or_ge k m with hm | hm
      · have := outside.cases (first.reach_of_mem_successors finds hks hm ha)
        omega
      · exact ih₂ outside₂ hc hct hm hkt
  | @skipped w s t here code ih =>
    have hc := hno here nofun
    have hlast := code.body_lt closure across (by omega) hct
    rcases Nat.eq_or_lt_of_le hks with rfl | hk'
    · rw [Program.successors, here] at ha
      simp only [List.mem_cons, List.not_mem_nil, or_false] at ha
      omega
    · exact ih (outside.part (Nat.le_succ _) (Nat.le_refl _)) (by omega) hct hk' hkt
  | @branches w s m t here first jump second ih₁ ih₂ =>
    have hle := first.le
    have hle' := second.le
    have hcs' := hno here nofun
    have hcm := hno jump nofun
    rcases Nat.eq_or_lt_of_le hks with rfl | hk'
    · have hlast : last < m ∨ m < c := (Nat.lt_or_ge c m).imp
        (fun hc => first.body_lt closure across (by omega) hc) (by omega)
      rw [Program.successors, here] at ha
      simp only [List.mem_cons, List.not_mem_nil, or_false] at ha
      omega
    rcases Nat.lt_or_ge c m with hc | hc
    · have hlast := first.body_lt closure across (by omega) hc
      rcases Nat.lt_trichotomy k m with hm | rfl | hm
      · exact ih₁ (outside.part (by omega) (by omega)) (by omega) hc hk' hm
      · rw [Program.successors, jump] at ha
        obtain rfl := List.mem_singleton.1 ha
        omega
      · have := outside.cases (second.reach_of_mem_successors finds hm hkt ha)
        omega
    · have hlast := second.body_lt closure across (by omega) hct
      rcases Nat.lt_trichotomy k m with hm | rfl | hm
      · have := outside.cases (first.reach_of_mem_successors finds hk' hm ha)
        omega
      · rw [Program.successors, jump] at ha
        obtain rfl := List.mem_singleton.1 ha
        omega
      · exact ih₂ (outside.part (by omega) (Nat.le_refl _)) (by omega) hct hm hkt
  | @scope w s m slots opens code closes ih =>
    have hcs' := hno opens nofun
    have hcm := hno closes nofun
    have hlast := code.body_lt closure across (by omega) (by omega)
    rcases Nat.eq_or_lt_of_le hks with rfl | hk'
    · rw [Program.successors, opens] at ha
      obtain rfl := List.mem_singleton.1 ha
      omega
    rcases Nat.eq_or_lt_of_le (Nat.lt_succ_iff.1 hkt) with rfl | hm
    · rw [Program.successors, closes] at ha
      obtain rfl := List.mem_singleton.1 ha
      omega
    · exact ih (outside.part (Nat.le_succ _) (Nat.le_succ _)) (by omega) (by omega) hk' hm
  | @function w s m arity closure' across' body returns ih =>
    have hle := body.le
    have hcs' := hno across' nofun
    have hcm := hno returns nofun
    rcases Nat.eq_or_lt_of_le (Nat.lt_succ_iff.1 hkt) with rfl | hm
    · rw [Program.successors, returns] at ha
      cases ha
    -- Either it is the body of this function, or the body of a function in it.
    have hlast : (c = s ∧ last = m) ∨ (s + 2 ≤ c ∧ last < m) := by
      rcases Nat.eq_or_lt_of_le hcs with rfl | hc
      · have := Instruction.jump.inj (Option.some.inj (across.symm.trans across'))
        omega
      · have := body.body_lt closure across (by omega) (by omega)
        omega
    rcases Nat.eq_or_lt_of_le hks with rfl | hk'
    · rw [Program.successors, closure'] at ha
      obtain rfl := List.mem_singleton.1 ha
      omega
    rcases Nat.eq_or_lt_of_le hk' with rfl | hk'
    · rw [Program.successors, across'] at ha
      obtain rfl := List.mem_singleton.1 ha
      omega
    · exact ih nofun (by omega) (by omega) hk' hm
  | @spawn w s n spawns calls ends =>
    have hc := hno spawns nofun
    have hc₁ := hno calls nofun
    have hc₂ := hno ends nofun
    omega
  | breakLoop here | continueLoop here => 
    have hc := hno here nofun
    omega
  | test here =>
    have hc := hno here nofun
    omega
  | @loop w s m u v slots opens first round after again ends inside closes ih₁ ih₂ ih₃ =>
    have hle₁ := first.le
    have hle₂ := round.le
    have hle₃ := after.le
    have hcs' := hno opens nofun
    have hcv := hno again nofun
    have hcv₁ := hno ends nofun
    have hcv₂ := hno closes nofun
    -- The parts of the loop reach their own ends, and where the loop goes on and where it ends.
    have hreach : ∀ {x y : Nat}, Reach (some ⟨s, u, v + 1⟩) x y a →
        (x ≤ a ∧ a ≤ y) ∨ a = u ∨ v + 1 ≤ a := by
      rintro x y (ha | ⟨place, hplace, ha⟩)
      · exact .inl ha
      · obtain rfl := Option.some.inj hplace
        simp only at ha
        omega
    have outside' : ∀ {x y : Nat}, u ≤ x ∨ y ≤ u → y ≤ v →
        Outside (some ⟨s, u, v + 1⟩) x y := by
      rintro x y hnext hend place hplace
      obtain rfl := Option.some.inj hplace
      simp only
      omega
    have hlast : (c < m ∧ last < m) ∨ (m ≤ c ∧ c < u ∧ last < u) ∨ (u ≤ c ∧ last < v) := by
      rcases Nat.lt_or_ge c m with hm | hm
      · exact .inl ⟨hm, first.body_lt closure across (by omega) hm⟩
      rcases Nat.lt_or_ge c u with hu | hu
      · exact .inr (.inl ⟨hm, hu, round.body_lt closure across hm hu⟩)
      · exact .inr (.inr ⟨hu, after.body_lt closure across hu (by omega)⟩)
    rcases Nat.eq_or_lt_of_le hks with rfl | hk'
    · rw [Program.successors, opens] at ha
      obtain rfl := List.mem_singleton.1 ha
      omega
    rcases Nat.lt_or_ge k m with hm | hm
    · have := hreach (first.reach_of_mem_successors finds hk' hm ha)
      rcases Nat.lt_or_ge c m with hc | hc
      · exact ih₁ (outside' (by omega) (by omega)) (by omega) hc hk' hm
      · omega
    rcases Nat.lt_or_ge k u with hu | hu
    · have := hreach (round.reach_of_mem_successors finds hm hu ha)
      by_cases hc : m ≤ c ∧ c < u
      · exact ih₂ (outside' (by omega) (by omega)) hc.1 hc.2 hm hu
      · omega
    rcases Nat.lt_trichotomy k v with hv | rfl | hv
    · have := hreach (after.reach_of_mem_successors finds hu hv ha)
      rcases Nat.lt_or_ge c u with hc | hc
      · omega
      · exact ih₃ (outside' (by omega) (by omega)) hc (by omega) hu hv
    · rw [Program.successors, again] at ha
      obtain rfl := List.mem_singleton.1 ha
      omega
    rcases Nat.eq_or_lt_of_le hv with rfl | hv
    · rw [Program.successors, ends] at ha
      obtain rfl := List.mem_singleton.1 ha
      omega
    · obtain rfl : k = v + 2 := by omega
      rw [Program.successors, closes] at ha
      obtain rfl := List.mem_singleton.1 ha
      omega

/-- In a program that is a segment, nothing goes into the body of a function or out of it. -/
theorem mem_body_iff {n c arity last : Nat} (h : Segment p loops none 0 n) (finds : Finds p loops)
    (hsize : p.code.size = n + 1) (hhalt : p.at? n = some .halt)
    (closure : p.at? c = some (.closure arity (c + 2)))
    (across : p.at? (c + 1) = some (.jump (last + 1))) (body : Segment p loops none (c + 2) last)
    (returns : p.at? last = some .ret) (hc : c < n) (ha : a ∈ p.successors k) :
    c + 2 ≤ k ∧ k ≤ last ↔ c + 2 ≤ a ∧ a ≤ last := by
  constructor
  · rintro ⟨hk, hk'⟩
    rcases Nat.eq_or_lt_of_le hk' with rfl | hk'
    · rw [Program.successors, returns] at ha
      cases ha
    · rcases body.reach_of_mem_successors finds hk hk' ha with ha | ⟨_, ⟨⟩, -⟩
      exact ha
  · intro hbody
    refine Classical.byContradiction fun hout => ?_
    rcases Nat.lt_trichotomy k n with hk | rfl | hk
    · have := h.stays_out finds nofun closure across (Nat.zero_le _) hc (Nat.zero_le _) hk
        (by omega) ha
      omega
    · rw [Program.successors, hhalt] at ha
      cases ha
    · rw [Program.successors, Program.at?, Array.getElem?_eq_none (by omega)] at ha
      cases ha

end Segment

/-! ## Modules -/

/-- The program of a module is a segment, in no loop, and an instruction that ends the run. -/
theorem Module.exists_segment {m : Module} {program : Program} (h : m.compile = .ok program) :
    ∃ n, program.code.size = n + 1 ∧ program.at? n = some .halt ∧
      Segment program (fun k => m.enclosing[k]?) none 0 n := by
  obtain ⟨code, hcode, h⟩ := exists_of_bind h
  obtain rfl := Except.ok.inj h
  have hbody : BodyFits m.body := compileBody_fits m.body
  have hfits := hbody.block (σ := start) hcode ⟨rfl, nofun⟩ rfl
  have hat : ∀ pc, (Program.mk (code ++ [Instruction.halt]).toArray).at? pc =
      (code ++ [Instruction.halt])[pc]? := fun _ => List.getElem?_toArray
  refine ⟨code.length, by simp, by simp [hat], ?_⟩
  have segment := hfits.segment ⟨(code ++ [Instruction.halt]).toArray⟩ (fun k => m.enclosing[k]?)
    (lies_of_getElem? _ _ fun i x hx => ?_) (lies_of_getElem? _ _ fun i x hx => ?_)
  · rw [Nat.zero_add] at segment
    exact segment
  · rw [Nat.zero_add, hat, List.getElem?_append_left (List.getElem?_eq_some_iff.1 hx).1, hx]
  · rw [Nat.zero_add]
    exact (List.getElem?_append_left (List.getElem?_eq_some_iff.1 hx).1).trans hx

/-- In the program of a module the loops around are found. -/
theorem Module.finds_loops {m : Module} {program : Program} (h : m.compile = .ok program) :
    Finds program fun k => m.enclosing[k]? := by
  obtain ⟨plan, -, haround, hfollows, hplanned⟩ := Module.exists_shapes h
  intro k hk
  obtain ⟨σ, hσ⟩ : ∃ σ, plan k = some σ := hk.elim (hplanned k _) (hplanned k _)
  obtain ⟨i, hi, follows⟩ := hfollows k σ hσ
  have hloop : m.enclosing[k]? = some σ.loop := by rw [haround, hσ]; rfl
  rcases hk with hk | hk
  · obtain rfl := Option.some.inj (hi.symm.trans hk)
    cases follows with
    | plain takes => cases takes
    | breakLoop height inside finds =>
      exact ⟨_, hloop.trans (congrArg some inside), finds.search⟩
  · obtain rfl := Option.some.inj (hi.symm.trans hk)
    cases follows with
    | plain takes => cases takes
    | continueLoop height inside finds =>
      exact ⟨_, hloop.trans (congrArg some inside), finds.search⟩

/-- The program of a module is arranged as the machine expects it: addresses are those of
instructions, the bodies of functions are jumped over and closed to all but calls and returns, new
threads have their code, scopes are nested, loops end in front of the end of their scope, and the
run ends behind everything else. -/
theorem Module.arranges_code {m : Module} {program : Program} (h : m.compile = .ok program) :
    Arranged m program := by
  obtain ⟨n, hsize, hhalt, segment⟩ := Module.exists_segment h
  have finds := Module.finds_loops h
  have hcase : ∀ {pc : Nat} {i : Instruction}, program.at? pc = some i →
      (pc = n ∧ i = .halt) ∨
        (pc < n ∧ Stands program (fun k => m.enclosing[k]?) none 0 n pc i) := by
    intro pc i hi
    have hlt : pc < n + 1 := hsize ▸ (Array.getElem?_eq_some_iff.1 hi).1
    rcases Nat.eq_or_lt_of_le (Nat.lt_succ_iff.1 hlt) with rfl | hlt
    · exact .inl ⟨rfl, Option.some.inj (hi.symm.trans hhalt)⟩
    · obtain ⟨i', hi', stands⟩ := segment.exists_stands (Nat.zero_le _) hlt
      obtain rfl := Option.some.inj (hi.symm.trans hi')
      exact .inr ⟨hlt, stands⟩
  have hreach : ∀ {a : Nat}, Reach none 0 n a → a < program.code.size := by
    rintro a (⟨-, ha⟩ | ⟨_, ⟨⟩, -⟩)
    omega
  constructor
  · intro pc i hi a ha
    rcases hcase hi with ⟨-, rfl⟩ | ⟨hlt, stands⟩
    · cases ha
    cases stands with
    | straight straight =>
      rw [Instruction.addresses_of_isStraight straight] at ha
      cases ha
    | enterScope | exitScope | spawn | endThread | breakLoop | continueLoop => cases ha
    | jump reach | jumpUnless reach =>
      obtain rfl := List.mem_singleton.1 ha
      exact hreach reach
    | closure across body returns inside =>
      obtain rfl := List.mem_singleton.1 ha
      have := body.le
      omega
    | loopEnd inside opens code closes after before =>
      obtain rfl := List.mem_singleton.1 ha
      omega
  · intro pc arity entry hi
    rcases hcase hi with ⟨-, hno⟩ | ⟨hlt, stands⟩
    · cases hno
    cases stands with
    | straight straight => cases straight
    | @closure _ last across body returns inside =>
      have hle := body.le
      exact ⟨rfl, last, hle, across, returns, body.nested.append (.one returns rfl), fun k a ha =>
        segment.mem_body_iff finds hsize hhalt hi across body returns hlt ha⟩
  · intro pc k hi
    rcases hcase hi with ⟨-, hno⟩ | ⟨hlt, stands⟩
    · cases hno
    cases stands with
    | straight straight => cases straight
    | spawn calls ends inside => exact ⟨calls, ends⟩
  · rw [hsize]
    exact segment.nested.append (.one hhalt rfl)
  · intro pc next hi
    rcases hcase hi with ⟨-, hno⟩ | ⟨hlt, stands⟩
    · cases hno
    cases stands with
    | straight straight => cases straight
    | @loopEnd start _ slots inside opens code closes after before =>
      exact ⟨start, slots, inside, opens, code.append (.one hi rfl), closes, after, before⟩
  · intro pc
    constructor
    · intro hi
      rcases hcase hi with ⟨rfl, -⟩ | ⟨hlt, stands⟩
      · exact hsize.symm
      · cases stands with
        | straight straight => cases straight
    · intro hpc
      obtain rfl : pc = n := by omega
      exact hhalt

/-- A function with a loop that is left from inside of a branch, called in a new thread. -/
theorem Module.arranges_code_spawning : ∃ program,
    (Module.mk [
      .function "f" ["go"]
        [.loop none (some (.name "go")) none [.cond (.name "go") [.breakLoop] none]],
      .spawn (.call (.name "f") [.bool true])]).compile = .ok program ∧
    program.code = #[
      .enterScope 1, .closure 1 3, .jump 19,
      .enterScope 0, .load ⟨2, 0⟩, .jumpUnless 13, .load ⟨2, 0⟩, .jumpUnless 10, .breakLoop,
      .jump 11, .constant .undefined, .pop, .jump 4, .loopEnd 12, .exitScope,
      .constant .undefined, .pop, .constant .undefined, .ret,
      .store ⟨1, 0⟩, .pop, .load ⟨1, 0⟩, .constant (.bool true), .spawn 1, .call 1, .endThread,
      .exitScope, .halt] ∧
    Arranged (Module.mk [
      .function "f" ["go"]
        [.loop none (some (.name "go")) none [.cond (.name "go") [.breakLoop] none]],
      .spawn (.call (.name "f") [.bool true])]) program :=
  ⟨_, rfl, rfl, Module.arranges_code rfl⟩

end Source

end ChannelMachine
