import ChannelMachine.Proofs.Machine.Effects
import Mathlib.Data.List.Forall2

/-!
# What actions on the heap make

The values of operators and literals, new environments with the frames to return from them, and the
writes to channels are changes of the heap (`Undergoes`), which are told without the addresses of new
nodes.  `Yields` says so of an action that gives a value.

What an instruction finds through the registers is live.
-/

namespace ChannelMachine

/-! ## Nodes that are made -/

namespace Heap

variable {h k : Heap} {roots : List Address}

/-- Where new nodes are, in the order in which they are listed. -/
def placing (as : List Address) (i : Nat) : Address := as.getD i 0

/-- Nodes of different kinds are made. -/
theorem Undergoes.of_nodes (g : Grows h k roots) (hs : h.Sound) (hroots : ∀ a ∈ roots, h.InUse a)
    (as : List Address) (nodes : List (Header × List Ref))
    (news : List.Forall₂ (fun a b => New h k roots a b.1 (b.2.map (Ref.placed (placing as)))) as nodes)
    (tags : (nodes.map fun b => b.1.tag).Nodup) :
    Undergoes h k roots { made := nodes.map fun b => .node b.1 b.2 } (placing as) := by
  have hnode : ∀ {i : Nat} {header : Header} {words : List Ref},
      (nodes.map fun b => Blueprint.node b.1 b.2)[i]? = some (.node header words) →
        nodes[i]? = some (header, words) := by
    intro i header words hi
    rw [List.getElem?_map] at hi
    obtain ⟨b, hb, heq⟩ := Option.map_eq_some_iff.1 hi
    obtain ⟨rfl, rfl⟩ := Blueprint.node.inj heq
    exact hb
  have hnew : ∀ {i : Nat} {header : Header} {words : List Ref}, nodes[i]? = some (header, words) →
      New h k roots (placing as i) header (words.map (Ref.placed (placing as))) := by
    intro i header words hi
    obtain ⟨hlt, heq⟩ := List.getElem?_eq_some_iff.1 hi
    have hlt' : i < as.length := news.length_eq ▸ hlt
    have new := news.get hlt' hlt
    rw [List.get_eq_getElem, List.get_eq_getElem, heq] at new
    rw [placing, List.getD_eq_getElem?_getD, List.getElem?_eq_getElem hlt', Option.getD_some]
    exact new
  refine .of_grows g hs hroots (fun i _ _ hi => hnew (hnode hi)) ?_ ?_
  · intro i j header words header' words' hi hj heq
    have hi := hnode hi
    have hj := hnode hj
    have htag : header.tag = header'.tag := by
      rw [← (hnew hi).toHolds.header, ← (hnew hj).toHolds.header, heq]
    have hlt := (List.getElem?_eq_some_iff.1 hi).1
    refine (List.getElem?_inj (i := i) (j := j) (by simpa using hlt) tags).1 ?_
    rw [List.getElem?_map, List.getElem?_map, hi, hj]
    exact congrArg some htag
  · intro i s hi
    rw [List.getElem?_map] at hi
    obtain ⟨_, -, heq⟩ := Option.map_eq_some_iff.1 hi
    cases heq

/-- A header whose size is that of its words. -/
theorem childRange_fresh {t : Tag} {n : Nat} (ht : t = .frame ∨ t = .environment) (hn : n ≤ nodeSize) :
    (Header.fresh t n).childRange = (1, n) := by
  have hsize := toNat_size hn t
  rcases ht with rfl | rfl
  · exact congrArg (Prod.mk 1) hsize
  · exact congrArg (Prod.mk 1) hsize

/-! ## Values -/

/-- A node is that of a value after an operation. -/
structure Bears (h k : Heap) (roots : List Address) (x : Product) (a : Address) (f : Nat → Address) :
    Prop where
  /-- The value may be made. -/
  undergoes : Undergoes h k roots { made := x.made } f
  /-- It has what it needs. -/
  affords : h.Affords roots { made := x.made }
  /-- It is live or new. -/
  stands : h.Stands roots x.made.length x.ref
  /-- The node. -/
  placed : x.ref.placed f = a

/-- An action on the heap gives this value, or it fails. -/
def Yields (action : Action Address) (h : Heap) (roots : List Address) (x? : Option Product) : Prop :=
  Ensures action h (fun a k => ∃ x f, x? = some x ∧ Bears h k roots x a f) fun _ _ => True

/-- A live node is given, and nothing is made. -/
theorem Bears.of_live (g : Grows h k roots) (hs : h.Sound) (hroots : ∀ a ∈ roots, h.InUse a)
    {a : Address} (ha : h.Live roots a) (f : Nat → Address) : Bears h k roots (.known a) a f :=
  ⟨.nothing g hs hroots f, .nothing, ha, rfl⟩

/-- A new node is given. -/
theorem Bears.of_made {header : Header} {ws : List Nat} {a : Address}
    (made : Made h k roots a header ws) (hs : h.Sound) (hroots : ∀ a ∈ roots, h.InUse a)
    (range : header.childRange.2 ≤ ws.length + 1)
    (child : ∀ j w, ws[j]? = some w → header.childRange.1 ≤ j + 1 → j + 1 < header.childRange.2 →
      w = vacant ∨ h.Live roots w) :
    Bears h k roots (.new (.node header (ws.map .known))) a fun _ => a := by
  refine ⟨.of_made made hs hroots, .of_made fun b hb => ?_, Nat.one_pos, rfl⟩
  rw [List.mem_singleton.1 hb]
  refine furnishes_node (by rwa [List.length_map]) fun j r hr hle hlt => ?_
  rw [List.getElem?_map] at hr
  obtain ⟨w, hw, rfl⟩ := Option.map_eq_some_iff.1 hr
  exact (child j w hw hle hlt).imp (congrArg Ref.known) id

theorem Intact.live_constant (hi : h.Intact) {i : Nat} (hlt : i < constants.length) :
    h.Live roots (addressOf i) := by
  have hle := hi.constants_le
  refine .permanent hi (addressOf_mod i) ?_
  simp only [Address, addressOf, nodeSize] at hle ⊢
  omega

theorem Intact.live_boolean (hi : h.Intact) (b : Bool) : h.Live roots (boolean b) := by
  cases b with
  | false => exact hi.live_constant (Nat.zero_lt_succ _)
  | true => exact hi.live_constant (by decide)

section Yields

variable {roots : Roots} (hs : h.Sound) (hroots : ∀ a ∈ roots.get, h.InUse a)

include hs hroots

theorem yields_newNumber (x : Number) :
    Yields (newNumber x roots) h roots.get (some (.new (.number x))) := by
  refine (hs.newNumber_ensures hroots x).mono (fun a k made => ?_) fun _ _ _ => trivial
  have bears := Bears.of_made made hs hroots (Nat.zero_le _)
    fun j _ _ _ hlt => absurd hlt (Nat.not_lt_zero _)
  exact ⟨_, _, rfl, bears⟩

theorem yields_newString (s : String) :
    Yields (newString s roots) h roots.get (some (.new (.text s))) := by
  refine (hs.newString_ensures hroots s).mono (fun a k has => ?_) fun _ _ _ => trivial
  refine ⟨_, fun _ => a, rfl, .of_hasText has hs hroots, .of_made fun b hb => ?_, Nat.one_pos, rfl⟩
  rw [List.mem_singleton.1 hb]
  exact furnishes_text s

/-- A function is made over an environment. -/
theorem yields_newClosure (arity entry : Nat) {environment : Address}
    (hlive : h.Live roots.get environment) (htag : h.tag environment = .environment) :
    Yields (newClosure arity entry environment roots) h roots.get
      (some (.new (.node (closureHeader entry) [.known arity, .known environment]))) := by
  refine (hs.newClosure_ensures hroots arity entry hlive htag).mono (fun a k made => ?_)
    fun _ _ _ => trivial
  have bears := Bears.of_made made hs hroots (Nat.le_refl 3) fun j w hw hle hlt => ?_
  · exact ⟨_, _, rfl, bears⟩
  · -- Only the environment is a child.
    obtain rfl : j = 1 := by
      change 2 ≤ j + 1 at hle
      change j + 1 < 3 at hlt
      omega
    exact .inr (Option.some.inj hw ▸ hlive)

/-- A boolean is given. -/
theorem yields_boolean (b : Bool) : Yields (pure (boolean b)) h roots.get (some (.known (boolean b))) :=
  .pure ⟨_, fun _ => 0, rfl, .of_live (.refl hs roots.get) hs hroots (hs.toIntact.live_boolean b) _⟩

theorem yields_applyUnary (op : UnaryOp) (a : Address) :
    Yields (applyUnary op a roots) h roots.get (h.unaryProduct? op a) := by
  unfold applyUnary unaryProduct?
  cases op with
  | neg =>
    refine .bind (.get ?_)
    cases h.number? a with
    | some x => exact yields_newNumber hs hroots x.neg
    | none => exact .bind (.get (.throw trivial))
  | not =>
    refine .bind (.get ?_)
    cases h.bool? a with
    | some b => exact yields_boolean hs hroots (!b)
    | none => exact .bind (.get (.throw trivial))

theorem yields_applyBinary (op : BinaryOp) (a b : Address) :
    Yields (applyBinary op a b roots) h roots.get (h.binaryProduct? op a b) := by
  have hbad : ∀ {x? : Option Product},
      Yields (do throw ((← get).badOperands op a b)) h roots.get x? :=
    .bind (.get (.throw trivial))
  cases op with
  | eq => exact .bind (.get (yields_boolean hs hroots _))
  | ne => exact .bind (.get (yields_boolean hs hroots _))
  | lt | le | gt | ge =>
    refine .bind (.get ?_)
    unfold binaryProduct?
    cases h.operands a b with
    | numbers x y => exact yields_boolean hs hroots _
    | texts s t => exact yields_boolean hs hroots _
    | other => exact hbad
  | add =>
    refine .bind (.get ?_)
    unfold binaryProduct?
    cases h.operands a b with
    | numbers x y => exact yields_newNumber hs hroots _
    | texts s t => exact yields_newString hs hroots _
    | other => exact hbad
  | sub | mul | div | mod =>
    refine .bind (.get ?_)
    unfold binaryProduct?
    cases h.operands a b with
    | numbers x y => exact yields_newNumber hs hroots _
    | texts | other => exact hbad

end Yields

end Heap

/-! ## Environments -/

namespace Heap

variable {h k : Heap} {roots : List Address}

/-- All words of a node are children, and they are live. -/
theorem furnishes_all {header : Header} {words : List Ref} {n : Nat}
    (range : header.childRange.2 ≤ words.length + 1)
    (all : ∀ r ∈ words, h.Stands roots n r) : h.Furnishes roots n (.node header words) :=
  furnishes_node range fun _ r hr _ _ => .inr (all r (List.mem_of_getElem? hr))

theorem childRange_back {header : Header} (htag : header.tag = .blockframe ∨ header.tag = .callframe) :
    header.childRange = (1, 2) := by
  rcases htag with htag | htag
  · rw [Header.childRange, htag]
  · rw [Header.childRange, htag]

theorem furnishes_back {header : Header} {environment : Address} {n : Nat}
    (htag : header.tag = .blockframe ∨ header.tag = .callframe) (hlive : h.Live roots environment) :
    h.Furnishes roots n (.back header environment) :=
  furnishes_all (Nat.le_of_eq (congrArg Prod.snd (childRange_back htag)))
    fun r hr => by rw [List.mem_singleton.1 hr]; exact hlive

theorem furnishes_frame {values : List Nat} {n : Nat} (hle : values.length + 1 ≤ nodeSize)
    (hlive : ∀ a ∈ values, h.Live roots a) : h.Furnishes roots n (.frame values) := by
  refine furnishes_all (Nat.le_of_eq ?_) fun r hr => ?_
  · rw [childRange_fresh (.inl rfl) hle, List.length_map]
  · obtain ⟨a, ha, rfl⟩ := List.mem_map.1 hr
    exact hlive a ha

theorem furnishes_inside {environment : Address} {i n : Nat}
    (hle : h.frameCount environment + 2 ≤ nodeSize)
    (hlive : ∀ a ∈ h.framesOf environment, h.Live roots a) (hi : i < n) :
    h.Furnishes roots n (.inside h environment i) := by
  refine furnishes_all (Nat.le_of_eq ?_) fun r hr => ?_
  · rw [childRange_fresh (.inr rfl) hle, List.length_append, List.length_map, length_framesOf,
      List.length_singleton]
  · rcases List.mem_append.1 hr with hr | hr
    · obtain ⟨a, ha, rfl⟩ := List.mem_map.1 hr
      exact hlive a ha
    · rw [List.mem_singleton.1 hr]
      exact hi

variable {environment frame inside : Address} {values : List Nat}

/-- The words of an environment with one more frame, where the new nodes are. -/
theorem placed_inside (environment : Address) (i : Nat) (f : Nat → Address) :
    ((h.framesOf environment).map Ref.known ++ [Ref.made i]).map (Ref.placed f) =
      h.framesOf environment ++ [f i] := by
  rw [List.map_append, map_placed_known]
  rfl

section Environments

variable (hs : h.Sound) (hroots : ∀ a ∈ roots, h.InUse a) (hlive : h.Live roots environment)
  (htag : h.tag environment = .environment) (hvalues : ∀ a ∈ values, h.Live roots a)
  (made : MadeEnvironment h k roots environment values frame inside)

include made

theorem MadeEnvironment.news (i : Nat) {f : Nat → Address} (hf : f i = frame) :
    New h k roots frame (.fresh .frame (values.length + 1)) ((values.map Ref.known).map (Ref.placed f)) ∧
      New h k roots inside (.fresh .environment (h.frameCount environment + 2))
        (((h.framesOf environment).map Ref.known ++ [Ref.made i]).map (Ref.placed f)) := by
  rw [map_placed_known, placed_inside, hf]
  exact ⟨made.newFrame, made.newInside⟩

include hs hroots hlive htag hvalues

theorem MadeEnvironment.furnishes {i n : Nat} (hi : i < n) :
    h.Furnishes roots n (.frame values) ∧ h.Furnishes roots n (.inside h environment i) := by
  refine ⟨furnishes_frame made.newFrame.fits hvalues, furnishes_inside ?_
    (fun a ha => (hs.live_framesOf hroots hlive htag a ha).1) hi⟩
  have hfits := made.newInside.fits
  rwa [List.length_append, length_framesOf] at hfits

/-- An environment is made with a frame of its own. -/
theorem MadeEnvironment.changes :
    Undergoes h k roots { made := [.frame values, .inside h environment 0] } (placing [frame, inside]) ∧
      h.Affords roots { made := [.frame values, .inside h environment 0] } := by
  constructor
  · obtain ⟨hframe, hinside⟩ := made.news (f := placing [frame, inside]) 0 rfl
    have news : List.Forall₂ (fun a (b : Header × List Ref) =>
        New h k roots a b.1 (b.2.map (Ref.placed (placing [frame, inside])))) [frame, inside]
        [(_, values.map .known), (_, (h.framesOf environment).map .known ++ [.made 0])] :=
      .cons hframe (.cons hinside .nil)
    exact .of_nodes made.toGrows hs hroots _ _ news (by simp)
  · refine .of_made fun b hb => ?_
    obtain ⟨hframe, hinside⟩ := made.furnishes hs hroots hlive htag hvalues (i := 0) (n := 2) Nat.two_pos
    rcases List.mem_cons.1 hb with rfl | hb
    · exact hframe
    · exact List.mem_singleton.1 hb ▸ hinside

/-- An environment is made with a frame of its own, and a frame to return to another one. -/
theorem MadeEnvironment.changes_back {header : Header} {outer block : Address}
    (hback : header.tag = .blockframe ∨ header.tag = .callframe) (houter : h.Live roots outer)
    (new : New h k roots block header [outer]) :
    Undergoes h k roots { made := [.back header outer, .frame values, .inside h environment 1] }
        (placing [block, frame, inside]) ∧
      h.Affords roots { made := [.back header outer, .frame values, .inside h environment 1] } := by
  constructor
  · obtain ⟨hframe, hinside⟩ := made.news (f := placing [block, frame, inside]) 1 rfl
    have news : List.Forall₂ (fun a (b : Header × List Ref) =>
        New h k roots a b.1 (b.2.map (Ref.placed (placing [block, frame, inside]))))
        [block, frame, inside] [(header, [.known outer]), (_, values.map .known),
          (_, (h.framesOf environment).map .known ++ [.made 1])] :=
      .cons new (.cons hframe (.cons hinside .nil))
    refine .of_nodes made.toGrows hs hroots _ _ news ?_
    rcases hback with h | h
    · simp [h]
    · simp [h]
  · refine .of_made fun b hb => ?_
    obtain ⟨hframe, hinside⟩ := made.furnishes hs hroots hlive htag hvalues (i := 1) (n := 3)
      (by decide)
    rcases List.mem_cons.1 hb with rfl | hb
    · exact furnishes_back hback houter
    · rcases List.mem_cons.1 hb with rfl | hb
      · exact hframe
      · exact List.mem_singleton.1 hb ▸ hinside

end Environments

end Heap

/-! ## What instructions read -/

/-- What is dropped depends on the elements only. -/
theorem dropWhile_congr {α : Type} {p q : α → Bool} {l : List α} (h : ∀ a ∈ l, p a = q a) :
    l.dropWhile p = l.dropWhile q := by
  induction l with
  | nil => rfl
  | cons a l ih =>
    rw [List.dropWhile_cons, List.dropWhile_cons, h a List.mem_cons_self,
      ih fun b hb => h b (List.mem_cons_of_mem a hb)]

namespace Heap

variable {h : Heap} {roots : List Address}

/-- A variable is a slot of the frame that its position tells. -/
theorem of_slotOf?_eq {environment frame : Address} {p : Position} {i : Nat}
    (hslot : h.slotOf? environment p = some (frame, i)) :
    (h.framesOf environment)[p.frame]? = some frame ∧ h.tag frame = .frame ∧ i = p.slot + 1 ∧
      i < h.size frame := by
  unfold slotOf? at hslot
  split at hslot
  next hcount =>
    dsimp only at hslot
    split at hslot
    next hin =>
      obtain ⟨rfl, rfl⟩ := Prod.mk.inj (Option.some.inj hslot)
      exact ⟨getElem?_framesOf hcount, hin.1, rfl, hin.2⟩
    next => cases hslot
  next => cases hslot

/-- The frame of a variable is live. -/
theorem Sound.live_slotOf? (hs : h.Sound) (hroots : ∀ a ∈ roots, h.InUse a) {environment : Nat}
    (hlive : h.Live roots environment) (htag : h.tag environment = .environment) {p : Position}
    {frame i : Nat} (hslot : h.slotOf? environment p = some (frame, i)) :
    h.Live roots frame ∧ h.tag frame = .frame ∧ 1 ≤ i ∧ i < h.size frame := by
  obtain ⟨hframe, hftag, rfl, hlt⟩ := of_slotOf?_eq hslot
  exact ⟨(hs.live_framesOf hroots hlive htag _ (List.mem_of_getElem? hframe)).1, hftag,
    Nat.le_add_left .., hlt⟩

/-- The value of a variable is live where the environment is. -/
theorem Sound.live_lookup (hs : h.Sound) (hroots : ∀ a ∈ roots, h.InUse a) {environment : Nat}
    (hlive : h.Live roots environment) (htag : h.tag environment = .environment) {p : Position}
    {a : Address} (ha : h.lookup environment p = .ok a) : h.Live roots a := by
  unfold Heap.lookup at ha
  split at ha
  next frame i hslot =>
    obtain ⟨hframe, hftag, hpos, hlt⟩ := hs.live_slotOf? hroots hlive htag hslot
    rw [← Except.ok.inj ha]
    refine hs.live_child hroots hframe (by rw [hftag]; decide) ?_ ?_
    · rw [childRange_frame hftag]
      exact hpos
    · rw [childRange_frame hftag]
      exact hlt
  next => cases ha

theorem returning?_congr {k : Heap} {frames : List Address} (same : ∀ a ∈ frames, SameNode h k a) :
    k.returning? frames = h.returning? frames := by
  have hdrop : (frames.dropWhile fun a => k.tag a ≠ .callframe) =
      frames.dropWhile fun a => h.tag a ≠ .callframe :=
    dropWhile_congr fun a ha => by rw [(same a ha).tag]
  unfold returning?
  rw [hdrop]
  cases hcall : frames.dropWhile fun a => h.tag a ≠ .callframe with
  | nil => rfl
  | cons call rest =>
    have same := same call (List.dropWhile_subset _ (hcall ▸ List.mem_cons_self))
    dsimp only
    rw [payload, payload, same.header, same.word 1 (Nat.le_refl 1) (by decide)]

/-- What is left when scopes are closed is live. -/
theorem Sound.live_closing (hs : h.Sound) (hroots : ∀ a ∈ roots, h.InUse a) (n : Nat) :
    ∀ {environment : Address} {frames : List Address} {rest : Address × List Address},
      h.closing? n environment frames = some rest → h.Live roots environment →
      (∀ a ∈ frames, h.Live roots a) →
      h.Live roots rest.1 ∧ ∀ a ∈ rest.2, h.Live roots a := by
  induction n with
  | zero =>
    intro environment frames rest hrest henv hframes
    rw [← Option.some.inj hrest]
    exact ⟨henv, hframes⟩
  | succ n ih =>
    intro environment frames rest hrest henv hframes
    cases frames with
    | nil => cases hrest
    | cons frame frames =>
      unfold closing? at hrest
      split at hrest
      next htag =>
        have hframe := hframes frame List.mem_cons_self
        exact ih hrest (hs.live_block (hs.inUse_of_live hroots hframe) (.inl htag) hframe)
          fun a ha => hframes a (List.mem_cons_of_mem _ ha)
      next => cases hrest

/-- What is left when a function returns is live. -/
theorem Sound.live_returning (hs : h.Sound) (hroots : ∀ a ∈ roots, h.InUse a) {frames : List Address}
    {pc : Nat} {environment : Address} {rest : List Address}
    (hrest : h.returning? frames = some (pc, environment, rest))
    (hframes : ∀ a ∈ frames, h.Live roots a) :
    h.Live roots environment ∧ ∀ a ∈ rest, h.Live roots a := by
  unfold returning? at hrest
  split at hrest
  next => cases hrest
  next call calls heq =>
    obtain ⟨-, heq'⟩ := Prod.mk.inj (Option.some.inj hrest)
    obtain ⟨rfl, rfl⟩ := Prod.mk.inj heq'
    have hsub : ∀ a ∈ call :: calls, h.Live roots a := fun a ha =>
      hframes a (List.dropWhile_subset _ (heq ▸ ha))
    have htag : h.tag call = .callframe := by
      have hhead := List.head?_dropWhile_not (fun a => decide (h.tag a ≠ .callframe)) frames
      rw [heq] at hhead
      simpa using hhead
    have hcall := hsub call List.mem_cons_self
    exact ⟨hs.live_block (hs.inUse_of_live hroots hcall) (.inr htag) hcall,
      fun a ha => hsub a (List.mem_cons_of_mem _ ha)⟩

end Heap

/-! ## Channels -/

namespace Heap

variable {h : Heap} {roots : List Address} {a v next : Address} {i j : Nat}
  {kind : Option (Address × Tag)}

/-- A word of a channel of which a slot and an index are written. -/
theorem wordAt_ring (hj : j < ringStart) (n : Nat) :
    Change.wordAt { writes := [(a, ringStart + i, v), (a, j, next)], kind } h a n =
      if n = j then next else if n = ringStart + i then v else h.word a n := by
  unfold Change.wordAt
  by_cases hn : n = ringStart + i
  · have hne : n ≠ j := by omega
    rw [List.find?_cons_of_pos (by simp [hn]), if_neg hne, if_pos hn]
  · rw [List.find?_cons_of_neg (by simp [Ne.symm hn])]
    by_cases hnj : n = j
    · rw [List.find?_cons_of_pos (by simp [hnj]), if_pos hnj]
    · rw [List.find?_cons_of_neg (by simp [Ne.symm hnj]), if_neg hnj, if_neg hn]
      rfl

/-- A heap after the check of a value. -/
theorem Undergoes.of_recorded {checked : Heap} {f : Nat → Address} (u : Updated h checked a)
    (hs : h.Sound) (hroots : ∀ a ∈ roots, h.InUse a) (htag : h.tag a = .channel)
    (hword : ∀ n, 1 ≤ n → n < nodeSize → checked.word a n = h.word a n)
    (hkind : kind = none ∧ checked.header a = h.header a ∨ ∃ t, kind = some (a, t) ∧
      checked.header a = { h.header a with payload := channelPayload (h.isUnbuffered a) t.code })
    (hbuilding : checked.building = h.building) : Undergoes h checked roots { kind } f := by
  exact .of_updated u hs hroots (by rw [htag]; decide)
    (fun _ _ _ hw => absurd hw List.not_mem_nil) hkind hword hbuilding

/-- A slot and an index of a channel are written. -/
theorem supplies_ring (hlive : h.Live roots a) (htag : h.tag a = .channel)
    (hi : ringStart + i < nodeSize) (hpos : 1 ≤ j) (hj : j < ringStart)
    (hv : v = vacant ∨ h.Live roots v) :
    h.Affords roots { writes := [(a, ringStart + i, v), (a, j, next)], kind } := by
  refine .of_writes (fun b n w hw => ?_) fun b n w hw hle _ => ?_
  all_goals
    simp only [List.mem_cons, List.not_mem_nil, or_false, Prod.mk.injEq] at hw
    rcases hw with ⟨rfl, rfl, rfl⟩ | ⟨rfl, rfl, rfl⟩
  · exact ⟨hlive, Nat.le_trans (by decide) (Nat.le_add_right ringStart i), hi⟩
  · exact ⟨hlive, hpos, Nat.lt_trans hj (by decide)⟩
  · exact hv
  · -- The indices are no children.
    rw [childRange_channel htag] at hle
    exact absurd hle (Nat.not_le.2 hj)

/-- The oldest value of a live channel is live. -/
theorem Sound.live_front (hs : h.Sound) (hroots : ∀ a ∈ roots, h.InUse a) (hlive : h.Live roots a)
    (htag : h.tag a = .channel) (taken : h.isEmpty a = false) : h.Live roots (h.channelFront a) := by
  have hin := hs.inUse_of_live hroots hlive
  obtain ⟨-, -, hread⟩ := hs.channel_bounds hin htag
  have hne : h.channelSlot a (h.readSlot a) ≠ vacant := by
    intro heq
    rw [isEmpty, heq] at taken
    cases taken
  have hrange := childRange_channel htag
  have hnode := hs.typed a hin
  refine .child hlive (mem_children_of_inUse hs.toIntact hnode hin.toIsBlock ?_ ?_
    (hs.channelSlot hin htag hread hne).1)
  · rw [hrange]
    exact Nat.le_add_right ..
  · rw [hrange, (hnode.ring htag).1]
    exact Nat.add_lt_add_left hread _

/-- The counter of a live wait-group is live. -/
theorem Sound.live_counter (hs : h.Sound) (hroots : ∀ a ∈ roots, h.InUse a) (hlive : h.Live roots a)
    (htag : h.tag a = .waitGroup) : h.Live roots (h.word a 1) := by
  have hrange : (h.header a).childRange = (1, 2) := childRange_of_tag htag
  refine hs.live_child hroots hlive (by rw [htag]; decide) ?_ ?_
  · exact Nat.le_of_eq (congrArg Prod.fst hrange)
  · exact Nat.lt_of_lt_of_eq (Nat.lt_succ_self 1) (congrArg Prod.snd hrange).symm

/-- The heap after the check of a value and after the writes of a slot and an index. -/
theorem Undergoes.of_ring {checked : Heap} {f : Nat → Address} (hs : h.Sound)
    (hroots : ∀ a ∈ roots, h.InUse a) (htag : h.tag a = .channel) (hblock : checked.IsBlock a)
    (hi : ringStart + i < nodeSize) (hpos : 1 ≤ j) (hj : j < ringStart)
    (u : Updated h ((checked.setWord a (ringStart + i) v).setWord a j next) a)
    (hword : ∀ n, 1 ≤ n → n < nodeSize → checked.word a n = h.word a n)
    (hkind : kind = none ∧ checked.header a = h.header a ∨ ∃ t, kind = some (a, t) ∧
      checked.header a = { h.header a with payload := channelPayload (h.isUnbuffered a) t.code })
    (hbuilding : checked.building = h.building) :
    Undergoes h ((checked.setWord a (ringStart + i) v).setWord a j next) roots
      { writes := [(a, ringStart + i, v), (a, j, next)], kind } f := by
  have hheader := header_slot_index hblock hi hpos hj v next
  rw [← hheader] at hkind
  refine .of_updated u hs hroots (by rw [htag]; decide) ?_ hkind ?_ hbuilding
  · intro b n w hw
    rcases List.mem_cons.1 hw with heq | hw
    · exact (Prod.mk.inj heq).1
    · exact (Prod.mk.inj (List.mem_singleton.1 hw)).1
  · intro n hpos' hlt
    rw [word_slot_index hblock hi hj _ _ hlt, wordAt_ring hj, hword n hpos' hlt]

end Heap

end ChannelMachine
