import ChannelMachine.Proofs.Heap.Inheriting
import ChannelMachine.Proofs.Machine.Sound
import ChannelMachine.Proofs.Source.Plan

/-!
# Registers as planned

A plan gives each index of a program a shape.  Here is what it means that the registers of a thread
have a shape.  The frames of the environment have the planned slots (`Heap.EnvironmentFits`), the frames
to return to lead back to environments of planned shapes (`Framed`), and the operands of the running
function lie on those of its callers, whose numbers are the bases.  The functions in the heap have to be
ones that the plan knows, since any of them may be called (`Heap.CallablesFit`).

None of this looks at a value, so it stays true as long as environments, functions and the frames to
return to stay what they are.  They do: such a node is never written again (`Heap.Steady`).
-/

namespace ChannelMachine

/-- Whether a node of this kind stays as it was made. -/
def Tag.isSteady : Tag → Bool
  | .closure | .environment | .blockframe | .callframe | .builtin => Bool.true
  | _ => Bool.false

namespace Heap

variable {h k : Heap} {roots : List Address} {environment : Address} {scopes : List Nat}

/-! ## Environments -/

/-- The frames of an environment have these slots, innermost first. -/
def EnvironmentFits (h : Heap) (environment : Address) (scopes : List Nat) : Prop :=
  (h.framesOf environment).map h.size = (scopes.map (· + 1)).reverse

theorem EnvironmentFits.frameCount (fits : h.EnvironmentFits environment scopes) :
    h.frameCount environment = scopes.length := by
  have hlen := congrArg List.length fits
  simpa [length_framesOf] using hlen

/-- The environment and the sizes of its frames are all that counts. -/
theorem EnvironmentFits.congr (fits : h.EnvironmentFits environment scopes)
    (same : SameNode h k environment) (hle : h.size environment ≤ nodeSize)
    (hsize : ∀ w ∈ h.framesOf environment, k.size w = h.size w) :
    k.EnvironmentFits environment scopes := by
  rw [EnvironmentFits, (same.framesOf hle).2, ← fits]
  exact List.map_congr_left hsize

theorem EnvironmentFits.arena (fits : h.EnvironmentFits environment scopes) (arena : SameArena h k)
    (hle : h.size environment ≤ nodeSize) : k.EnvironmentFits environment scopes :=
  fits.congr (arena.same _) hle fun w _ => (arena.same w).size

/-- A variable that is planned is there. -/
theorem EnvironmentFits.slotOf? (fits : h.EnvironmentFits environment scopes) (hs : h.Sound)
    (henv : h.InUse environment) (htag : h.tag environment = .environment) {q : Position}
    {slots : Nat} (hslots : scopes.reverse[q.frame]? = some slots) (hlt : q.slot < slots) :
    ∃ frame, h.slotOf? environment q = some (frame, q.slot + 1) := by
  have hframe : q.frame < h.frameCount environment := by
    rw [fits.frameCount, ← List.length_reverse]
    exact (List.getElem?_eq_some_iff.1 hslots).1
  have hsize : h.size (h.word environment (q.frame + 1)) = slots + 1 := by
    rw [EnvironmentFits, ← List.map_reverse] at fits
    have hget := congrArg (fun l : List Nat => l[q.frame]?) fits
    simpa only [List.getElem?_map, getElem?_framesOf hframe, hslots, Option.map_some,
      Option.some.injEq] using hget
  refine ⟨h.word environment (q.frame + 1), ?_⟩
  rw [Heap.slotOf?, if_pos hframe]
  refine if_pos ⟨(hs.word_environment henv htag hframe).2, ?_⟩
  rw [hsize]
  exact Nat.succ_lt_succ hlt

/-- An environment with one frame more. -/
theorem EnvironmentFits.extend (fits : h.EnvironmentFits environment scopes) (hs : h.Sound)
    (hroots : ∀ a ∈ roots, h.InUse a) (hlive : h.Live roots environment)
    (htag : h.tag environment = .environment) {values : List Nat} {frame inside : Address}
    (made : MadeEnvironment h k roots environment values frame inside) :
    k.EnvironmentFits inside (values.length :: scopes) := by
  have hsize : k.size frame = values.length + 1 := by
    rw [Heap.size, made.newFrame.toHolds.header, toNat_size made.newFrame.fits]
  have hold : (h.framesOf environment).map k.size = (h.framesOf environment).map h.size :=
    List.map_congr_left fun w hw =>
      (made.toKeeps.node w (hs.live_framesOf hroots hlive htag w hw).1).size
  rw [EnvironmentFits, made.framesOf, List.map_append, hold, fits, List.map_singleton, hsize,
    List.map_cons, List.reverse_cons]

/-! ## Heaps in which nodes stay what they are -/

/-- Of what was live, the steady nodes are the same, and frames have their sizes. -/
structure Steady (h k : Heap) (roots : List Address) : Prop where
  /-- The steady nodes. -/
  same : ∀ a, h.Live roots a → (h.tag a).isSteady = true → SameNode h k a
  /-- The frames. -/
  frame : ∀ a, h.Live roots a → h.tag a = .frame → k.size a = h.size a

theorem Steady.arena {l : Heap} (steady : Steady h k roots) (arena : SameArena k l) :
    Steady h l roots where
  same := fun a ha hkind => (steady.same a ha hkind).trans (arena.same a)
  frame := fun a ha htag => (arena.same a).size.trans (steady.frame a ha htag)

theorem Grows.steady (g : Grows h k roots) : Steady h k roots where
  same := fun a ha _ => g.toKeeps.node a ha
  frame := fun a ha _ => (g.toKeeps.node a ha).size

/-- A node is written that is not steady. -/
theorem Updated.steady {a : Address} (u : Updated h k a) (hs : h.Sound)
    (hroots : ∀ a ∈ roots, h.InUse a) (hkind : (h.tag a).isSteady = false)
    (hsize : h.tag a = .frame → k.size a = h.size a) : Steady h k roots where
  same := by
    intro b hb hsteady
    refine u.toWrites.same (hs.inUse_of_live hroots hb).toIsBlock ?_
    rintro rfl
    rw [hkind] at hsteady
    cases hsteady
  frame := by
    intro b hb htag
    by_cases hne : b = a
    · subst hne
      exact hsize htag
    · exact (u.toWrites.same (hs.inUse_of_live hroots hb).toIsBlock hne).size

/-- An environment that is live stays what it is. -/
theorem Steady.environmentFits (steady : Steady h k roots) (hs : h.Sound)
    (hroots : ∀ a ∈ roots, h.InUse a) (hlive : h.Live roots environment)
    (htag : h.tag environment = .environment) (fits : h.EnvironmentFits environment scopes) :
    k.EnvironmentFits environment scopes := by
  refine fits.congr (steady.same _ hlive (by rw [htag]; rfl))
    (hs.typed _ (hs.inUse_of_live hroots hlive)).le fun w hw => ?_
  obtain ⟨hw', hframe⟩ := hs.live_framesOf hroots hlive htag w hw
  exact steady.frame w hw' hframe

/-! ## What may be called -/

/-- A function or a builtin is one that the plan knows. -/
structure CallableFits (plan : Plan) (h : Heap) (a : Address) : Prop where
  /-- A function is planned where it was made. -/
  closure : h.tag a = .closure → ∃ σ : Shape, σ.Fits (h.word a 1) ∧
    h.EnvironmentFits (h.word a 2) σ.scopes ∧
    plan (h.payload a).toNat = some (σ.entry (h.word a 1))
  /-- A builtin is one of those that the compiler counts on. -/
  builtin : h.tag a = .builtin → (h.payload a).toNat < standardBuiltins.length

/-- All functions and builtins are ones that the plan knows. -/
def CallablesFit (plan : Plan) (h : Heap) : Prop := ∀ a, h.InUse a → CallableFits plan h a

/-- A plain node is no function. -/
theorem CallableFits.of_isPlain {plan : Plan} {a : Address} (ha : (h.tag a).isPlain = true) :
    CallableFits plan h a := by
  constructor
  all_goals
    intro htag
    rw [htag] at ha
    cases ha

/-- The child of a function. -/
theorem childRange_closure {a : Address} (htag : h.tag a = .closure) :
    (h.header a).childRange = (2, 3) :=
  childRange_of_tag htag

/-- The environment of a function is in use. -/
theorem Sound.environment_closure (hs : h.Sound) {a : Address} (ha : h.InUse a)
    (htag : h.tag a = .closure) :
    h.InUse (h.word a 2) ∧ h.tag (h.word a 2) = .environment := by
  have hrange := childRange_closure htag
  have hchild := (hs.typed a ha).child 2 (Nat.le_of_eq (congrArg Prod.fst hrange))
    (by rw [hrange]; decide)
  rw [htag] at hchild
  rcases hchild with ⟨hchannel, -⟩ | ⟨hin, hadmits⟩
  · cases hchannel
  · exact ⟨hin, hadmits⟩

/-- A function or a builtin that is still the same, in an environment that is. -/
theorem CallableFits.congr {plan : Plan} {a : Address} (fits : CallableFits plan h a)
    (same : SameNode h k a)
    (henv : h.tag a = .closure → ∀ scopes, h.EnvironmentFits (h.word a 2) scopes →
      k.EnvironmentFits (h.word a 2) scopes) : CallableFits plan k a where
  closure := by
    intro htag
    rw [same.tag] at htag
    obtain ⟨σ, hσ, hscopes, hplan⟩ := fits.closure htag
    rw [same.word 1 (by decide) (by decide), same.word 2 (by decide) (by decide), same.payload]
    exact ⟨σ, hσ, henv htag _ hscopes, hplan⟩
  builtin := by
    intro htag
    rw [same.payload]
    exact fits.builtin (same.tag ▸ htag)

/-- Whatever is inherited may still be called. -/
theorem CallablesFit.inherits {plan : Plan} {new : Address → Prop} (fits : CallablesFit plan h)
    (hs : h.Sound) (hk : k.Sound) (inherits : Inherits h k new)
    (hnew : ∀ a, k.InUse a → new a → CallableFits plan k a) : CallablesFit plan k := by
  intro a ha
  by_cases hold : new a
  · exact hnew a ha hold
  obtain ⟨hin, same⟩ := inherits.old a ha hold
  refine (fits a hin).congr same fun htag scopes hscopes => ?_
  -- Neither the environment of a function that is inherited nor a frame of it is new.
  have htag' : k.tag a = .closure := same.tag.trans htag
  have hrange := childRange_closure htag'
  have hword := same.word 2 (by decide) (by decide)
  obtain ⟨henv, hetag⟩ := hk.environment_closure ha htag'
  have holdEnv := inherits.child a ha hold 2 (Nat.le_of_eq (congrArg Prod.fst hrange))
    (by rw [hrange]; decide)
  rw [hword] at henv hetag holdEnv
  obtain ⟨hin', same'⟩ := inherits.old _ henv holdEnv
  have hle := (hs.typed _ hin').le
  refine hscopes.congr same' hle fun w hw => ?_
  rw [← (same'.framesOf hle).2] at hw
  obtain ⟨i, hi, rfl⟩ := List.mem_map.1 hw
  have hlt : i < k.size (h.word a 2) - 1 := List.mem_range.1 hi
  have hrange' := childRange_environment hetag
  refine (inherits.old _ (hk.word_environment henv hetag hlt).1 ?_).2.size
  refine inherits.child _ henv holdEnv (i + 1) ?_ ?_
  · rw [hrange']
    exact Nat.le_add_left ..
  · rw [hrange']
    exact Nat.add_lt_of_lt_sub hlt

/-- Plain nodes were added. -/
theorem CallablesFit.addsPlain {plan : Plan} (fits : CallablesFit plan h) (hs : h.Sound)
    (hk : k.Sound) {values : Address → Prop} (adds : AddsPlain h k values) :
    CallablesFit plan k := by
  obtain ⟨new, inherits, hplain⟩ := adds
  exact fits.inherits hs hk inherits fun a ha hnew => .of_isPlain (hplain a ha hnew).kind

/-- A node was written that is not steady. -/
theorem CallablesFit.updated {plan : Plan} {a : Address} (fits : CallablesFit plan h)
    (hs : h.Sound) (u : Updated h k a) (hkind : (h.tag a).isSteady = false)
    (hsize : h.tag a = .frame → k.size a = h.size a) : CallablesFit plan k := by
  have hsteady : ∀ b, h.IsBlock b → (h.tag b).isSteady = true → SameNode h k b := by
    intro b hb hsteady
    refine u.toWrites.same hb ?_
    rintro rfl
    rw [hkind] at hsteady
    cases hsteady
  intro b hb
  have htag := u.tag (u.toWrites.isBlock.1 hb.toIsBlock)
  have hin : h.InUse b := (InUse.congr u.toWrites.size htag).1 hb
  by_cases hb' : (h.tag b).isSteady = true
  · refine (fits b hin).congr (hsteady b hin.toIsBlock hb') fun hclosure scopes hscopes => ?_
    obtain ⟨henv, hetag⟩ := hs.environment_closure hin hclosure
    refine hscopes.congr (hsteady _ henv.toIsBlock (by rw [hetag]; rfl)) (hs.typed _ henv).le
      fun w hw => ?_
    obtain ⟨i, hi, rfl⟩ := List.mem_map.1 hw
    obtain ⟨hframe, hftag⟩ := hs.word_environment henv hetag (List.mem_range.1 hi)
    by_cases hne : h.word (h.word b 2) (i + 1) = a
    · rw [hne] at hftag ⊢
      exact hsize hftag
    · exact (u.toWrites.same hframe.toIsBlock hne).size
  · constructor
    all_goals
      intro hcall
      rw [htag] at hcall
      rw [hcall] at hb'
      exact absurd rfl hb'

theorem CallablesFit.arena {plan : Plan} (fits : CallablesFit plan h) (hs : h.Sound)
    (arena : SameArena h k) : CallablesFit plan k := by
  intro a ha
  refine (fits a (arena.inUse.1 ha)).congr (arena.same a) fun htag scopes hscopes => ?_
  obtain ⟨henv, -⟩ := hs.environment_closure (arena.inUse.1 ha) htag
  exact hscopes.arena arena (hs.typed _ henv).le

end Heap

/-! ## The past of a thread -/

/-- The level of code that is outside of functions, in a thread that is the main one or that the
instruction at an index started. -/
inductive Level.Outer : Level → Option Nat → Prop where
  /-- The main thread. -/
  | main : Outer .main none
  /-- Another thread in front of its call. -/
  | spawned (start : Nat) : Outer (.spawned start) (some start)
  /-- Such a thread behind its call. -/
  | ending (start : Nat) : Outer (.ending start) (some start)

/-- What registers do not tell about a thread. -/
structure Past where
  /-- The instruction at an index left this environment and these frames to return to, which are still
  there. -/
  opened : Nat → Address → List Address → Prop
  /-- The thread is the main one, or the instruction at an index started it. -/
  born : Option Nat → Prop
  /-- The thread has not executed any instruction. -/
  fresh : Prop
  /-- For each function that runs the operands that were there when it was called, innermost first. -/
  bases : List Nat

namespace Past

/-- The past of a thread that executes an instruction. -/
def begun (past : Past) : Past := { past with fresh := False }

/-- The past after an instruction, with the bases that there are then. -/
def after (past : Past) (pc : Nat) (r : Registers) (bases : List Nat) : Past where
  opened := fun start environment frames =>
    (frames <:+ r.frames ∧ past.opened start environment frames) ∨
      (start = pc ∧ environment = r.environment ∧ frames = r.frames)
  born := past.born
  fresh := past.fresh
  bases := bases

/-- The past of a thread that the instruction at an index has just started. -/
def begin (pc : Nat) : Past := ⟨fun _ _ _ => False, (· = some pc), True, []⟩

end Past

/-! ## Frames of a thread -/

/-- The environment and the frames to return to of a thread.  Each scope was opened by an instruction
of its own, and each call adds a base: the operands that the callers have on the stack.  In front of
its call a new thread has executed nothing. -/
inductive Framed (plan : Plan) (h : Heap) (past : Past) :
    (environment : Address) → (frames : List Address) → (scopes opened : List Nat) →
      Level → (bases : List Nat) → Prop where
  /-- Outside of functions and of scopes. -/
  | outer {environment : Address} {scopes : List Nat} {level : Level} {origin : Option Nat}
      (outer : level.Outer origin) (born : past.born origin)
      (fresh : ∀ start, level = .spawned start → past.fresh) (fits : h.EnvironmentFits environment scopes) :
      Framed plan h past environment [] scopes [] level []
  /-- In a scope. -/
  | block {environment outside a : Address} {frames : List Address} {slots start : Nat}
      {scopes opened : List Nat} {level : Level} {bases : List Nat}
      (rest : Framed plan h past outside frames scopes opened level bases)
      (tag : h.tag a = .blockframe) (link : h.word a 1 = outside)
      (enter : past.opened start environment (a :: frames))
      (fits : h.EnvironmentFits environment (slots :: scopes)) :
      Framed plan h past environment (a :: frames) (slots :: scopes) (start :: opened) level bases
  /-- In a function.  Where it returns to, the plan expects one operand more. -/
  | call {environment outside a : Address} {frames : List Address} {scopes bases : List Nat}
      {τ : Shape} (begun : ¬ past.fresh)
      (rest : Framed plan h past outside frames τ.scopes τ.opened τ.level bases)
      (tag : h.tag a = .callframe) (link : h.word a 1 = outside)
      (resume : plan (h.payload a).toNat = some (τ.lift 1))
      (fits : h.EnvironmentFits environment scopes) :
      Framed plan h past environment (a :: frames) scopes [] .function
        ((bases.headD 0 + τ.height) :: bases)

namespace Framed

variable {plan : Plan} {h k : Heap} {past past' : Past} {level : Level} {environment : Address}
  {frames : List Address} {scopes opened bases : List Nat} {roots : List Address}

theorem environmentFits (framed : Framed plan h past environment frames scopes opened level bases) :
    h.EnvironmentFits environment scopes := by
  cases framed with
  | outer _ _ _ fits => exact fits
  | block _ _ _ _ fits => exact fits
  | call _ _ _ _ _ fits => exact fits

/-- There is a base for each call. -/
theorem length_bases (framed : Framed plan h past environment frames scopes opened level bases) :
    bases.length = frames.countP fun a => h.tag a = .callframe := by
  induction framed with
  | outer => rfl
  | block _ tag _ _ _ ih => simpa [List.countP_cons, tag] using ih
  | call _ _ tag _ _ _ ih => simpa [List.countP_cons, tag] using ih

/-- The block frames in front of the nearest call frame. -/
theorem length_takeWhile
    (framed : Framed plan h past environment frames scopes opened level bases) :
    (frames.takeWhile fun a => h.tag a = .blockframe).length = opened.length := by
  induction framed with
  | outer => rfl
  | block _ tag _ _ _ ih => simpa [List.takeWhile_cons, tag] using ih
  | call _ _ tag => simp [tag]

/-- Outside of functions nothing was called. -/
theorem bases_eq_nil (framed : Framed plan h past environment frames scopes opened level bases)
    (hlevel : level ≠ .function) :
    bases = [] ∧ ∃ origin, level.Outer origin ∧ past.born origin := by
  induction framed with
  | outer outer born => exact ⟨rfl, _, outer, born⟩
  | block _ _ _ _ _ ih => exact ih hlevel
  | call => exact absurd rfl hlevel

/-- In front of its call a thread has executed nothing. -/
theorem fresh_of_spawned {start : Nat}
    (framed : Framed plan h past environment frames scopes opened (.spawned start) bases) :
    past.fresh := by
  generalize hlevel : Level.spawned start = level at framed
  induction framed with
  | outer _ _ fresh => exact fresh _ hlevel.symm
  | block _ _ _ _ _ ih => exact ih hlevel
  | call => cases hlevel

/-- Elsewhere it does not matter that a thread goes on. -/
theorem begun (framed : Framed plan h past environment frames scopes opened level bases)
    (hlevel : ∀ start, level ≠ .spawned start) :
    Framed plan h past.begun environment frames scopes opened level bases := by
  induction framed with
  | outer outer born _ fits => exact .outer outer born (fun _ h => absurd h (hlevel _)) fits
  | block _ tag link enter fits ih => exact .block (ih hlevel) tag link enter fits
  | call begun rest tag link resume fits ih =>
    exact .call id (ih fun _ h => begun ((h ▸ rest).fresh_of_spawned)) tag link resume fits

/-- In a function something was called. -/
theorem bases_ne_nil (framed : Framed plan h past environment frames scopes opened .function bases) :
    bases ≠ [] := by
  generalize hlevel : Level.function = level at framed
  induction framed with
  | outer outer =>
    subst hlevel
    cases outer
  | block _ _ _ _ _ ih => exact ih hlevel
  | call => exact List.cons_ne_nil _ _

/-- The innermost scope is closed. -/
theorem exit {start : Nat}
    (framed : Framed plan h past environment frames scopes (start :: opened) level bases) :
    ∃ a rest, frames = a :: rest ∧ h.tag a = .blockframe ∧ past.opened start environment frames ∧
      Framed plan h past (h.word a 1) rest (scopes.drop 1) opened level bases := by
  cases framed with
  | block rest tag link enter => exact ⟨_, _, rfl, tag, enter, link ▸ rest⟩

/-- A function returns to its caller. -/
theorem ret (framed : Framed plan h past environment frames scopes opened .function bases) :
    ∃ (call : Address) (rest : List Address) (τ : Shape) (outer : List Nat),
      (frames.dropWhile fun a => h.tag a ≠ .callframe) = call :: rest ∧
      bases = (outer.headD 0 + τ.height) :: outer ∧
      plan (h.payload call).toNat = some (τ.lift 1) ∧
      Framed plan h past (h.word call 1) rest τ.scopes τ.opened τ.level outer := by
  generalize hlevel : Level.function = level at framed
  induction framed with
  | outer outer =>
    subst hlevel
    cases outer
  | block _ tag _ _ _ ih => simpa [List.dropWhile_cons, tag] using ih hlevel
  | call _ rest tag link resume =>
    exact ⟨_, _, _, _, by simp [tag], rfl, resume, link ▸ rest⟩

/-- A function that is called in place of another one returns to the same caller. -/
theorem tailCall (framed : Framed plan h past environment frames scopes opened .function bases)
    {inside : Address} {scopes' : List Nat} (fits : h.EnvironmentFits inside scopes') :
    Framed plan h past inside (frames.dropWhile fun a => h.tag a = .blockframe) scopes' []
      .function bases := by
  generalize hlevel : Level.function = level at framed
  induction framed with
  | outer outer =>
    subst hlevel
    cases outer
  | block _ tag _ _ _ ih =>
    rw [List.dropWhile_cons, if_pos (decide_eq_true tag)]
    exact ih hlevel
  | call begun rest tag link resume =>
    rw [List.dropWhile_cons, if_neg (by simp [tag])]
    exact .call begun rest tag link resume fits

/-- The frames to return to of a thread stay what they are. -/
theorem steady (framed : Framed plan h past environment frames scopes opened level bases)
    (steady : h.Steady k roots) (hs : h.Sound) (hroots : ∀ a ∈ roots, h.InUse a)
    (hlive : h.Live roots environment) (htag : h.tag environment = .environment)
    (hframes : ∀ a ∈ frames, h.Live roots a) :
    Framed plan k past environment frames scopes opened level bases := by
  induction framed with
  | outer outer born fresh fits =>
    exact .outer outer born fresh (steady.environmentFits hs hroots hlive htag fits)
  | @block _ _ a _ _ _ _ _ _ _ _ tag link enter fits ih =>
    have ha := hframes a (List.mem_cons_self ..)
    have hin := hs.inUse_of_live hroots ha
    have same := steady.same a ha (by rw [tag]; rfl)
    obtain rfl := link
    have hrest := ih (hs.live_block hin (.inl tag) ha) (hs.word_block hin (.inl tag)).2
      fun b hb => hframes b (List.mem_cons_of_mem _ hb)
    exact .block hrest (same.tag.trans tag) (same.word 1 (by decide) (by decide)) enter
      (steady.environmentFits hs hroots hlive htag fits)
  | @call _ _ a _ _ _ _ begun _ tag link resume fits ih =>
    have ha := hframes a (List.mem_cons_self ..)
    have hin := hs.inUse_of_live hroots ha
    have same := steady.same a ha (by rw [tag]; rfl)
    obtain rfl := link
    have hrest := ih (hs.live_block hin (.inr tag) ha) (hs.word_block hin (.inr tag)).2
      fun b hb => hframes b (List.mem_cons_of_mem _ hb)
    exact .call begun hrest (same.tag.trans tag) (same.word 1 (by decide) (by decide))
      (same.payload.symm ▸ resume) (steady.environmentFits hs hroots hlive htag fits)

/-- Only what is known of these frames counts. -/
theorem mono (framed : Framed plan h past environment frames scopes opened level bases)
    (hopened : ∀ start environment inner, inner <:+ frames → past.opened start environment inner →
      past'.opened start environment inner) (hborn : ∀ origin, past.born origin → past'.born origin)
    (hfresh : past'.fresh ↔ past.fresh) :
    Framed plan h past' environment frames scopes opened level bases := by
  induction framed with
  | outer outer born fresh fits =>
    exact .outer outer (hborn _ born) (fun _ h => hfresh.2 (fresh _ h)) fits
  | block _ tag link enter fits ih =>
    refine .block (ih fun _ _ _ hsuffix => hopened _ _ _ ?_) tag link
      (hopened _ _ _ List.suffix_rfl enter) fits
    exact hsuffix.trans (List.suffix_cons ..)
  | call begun _ tag link resume fits ih =>
    refine .call (mt hfresh.1 begun) (ih fun _ _ _ hsuffix => hopened _ _ _ ?_) tag link resume fits
    exact hsuffix.trans (List.suffix_cons ..)

/-- What is known of the frames is not forgotten by an instruction that leaves them or others on top of
them. -/
theorem after {pc : Nat} {r : Registers} {bases' : List Nat}
    (framed : Framed plan h past environment frames scopes opened level bases)
    (hframes : frames <:+ r.frames) :
    Framed plan h (past.after pc r bases') environment frames scopes opened level bases :=
  framed.mono (fun _ _ _ hsuffix h => .inl ⟨hsuffix.trans hframes, h⟩) (fun _ h => h) Iff.rfl

end Framed

/-! ## Registers -/

namespace Registers

variable {plan : Plan} {h k : Heap} {past past' : Past} {r : Registers} {σ : Shape}

/-- The registers of a thread have a shape. -/
structure Has (plan : Plan) (h : Heap) (past : Past) (r : Registers) (σ : Shape) : Prop where
  /-- The environment and the frames to return to. -/
  framed : Framed plan h past r.environment r.frames σ.scopes σ.opened σ.level past.bases
  /-- The operands. -/
  height : r.stack.length = past.bases.headD 0 + σ.height

/-- The registers of a thread have the shape that is planned for its next instruction. -/
def Planned (plan : Plan) (h : Heap) (past : Past) (r : Registers) : Prop :=
  ∃ σ, plan r.pc = some σ ∧ r.Has plan h past σ

theorem Has.steady (has : r.Has plan h past σ) {roots : List Address}
    (steady : h.Steady k roots) (hs : h.Sound) (hroots : ∀ a ∈ roots, h.InUse a)
    (hr : r.Sound h) (hin : ∀ a ∈ r.roots, a ∈ roots) : r.Has plan k past σ where
  framed := has.framed.steady steady hs hroots (.root (hin _ (mem_roots.2 (.inr (.inl rfl))))) hr.tag
    fun a ha => .root (hin a (mem_roots.2 (.inr (.inr ha))))
  height := has.height

theorem Planned.steady (planned : r.Planned plan h past) {roots : List Address}
    (steady : h.Steady k roots) (hs : h.Sound) (hroots : ∀ a ∈ roots, h.InUse a)
    (hr : r.Sound h) (hin : ∀ a ∈ r.roots, a ∈ roots) : r.Planned plan k past := by
  obtain ⟨σ, hσ, has⟩ := planned
  exact ⟨σ, hσ, has.steady steady hs hroots hr hin⟩

/-- Only what is known of the frames counts. -/
theorem Planned.mono (planned : r.Planned plan h past)
    (hopened : ∀ start environment inner, inner <:+ r.frames →
      past.opened start environment inner → past'.opened start environment inner)
    (hborn : ∀ origin, past.born origin → past'.born origin) (hfresh : past'.fresh ↔ past.fresh)
    (hbases : past'.bases = past.bases) : r.Planned plan h past' := by
  obtain ⟨σ, hσ, framed, height⟩ := planned
  exact ⟨σ, hσ, hbases.symm ▸ framed.mono hopened hborn hfresh, hbases.symm ▸ height⟩

end Registers

end ChannelMachine
