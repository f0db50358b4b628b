import Mathlib.Data.List.Nodup
import ChannelMachine.Proofs.Source.Declarations

/-!
# Each slot is declared once

The code of a part of a module has indices of its own, and the scopes in it are opened there.  The
statements of a body take slots of their own in the scope around.  `Spans` says both of a list of
declarations, and lists that follow each other can be put together (`Spans.append`).  Therefore the scope
and the slot determine a declaration of a module (`Module.declaration_unique`).
-/

namespace ChannelMachine.Source

/-- Declarations of different slots: some in the scope that is opened at `start`, with slots from `slot`
on and below `slot'`, and the others in scopes that are opened from `base` on and before `limit`. -/
structure Spans (start slot slot' base limit : Nat) (ds : List Declaration) : Prop where
  /-- The slots may be none. -/
  slots : slot ≤ slot'
  /-- The indices may be none. -/
  indices : base ≤ limit
  /-- The slots are different. -/
  nodup : (ds.map fun d => (d.start, d.slot)).Nodup
  /-- Where they are. -/
  within : ∀ d ∈ ds, d.start = start ∧ slot ≤ d.slot ∧ d.slot < slot' ∨
    base ≤ d.start ∧ d.start < limit

namespace Spans

variable {start slot middle slot' base limit between : Nat} {ds first second : List Declaration}

theorem nil (start slot : Nat) (hle : base ≤ limit) : Spans start slot slot base limit [] :=
  ⟨Nat.le_refl _, hle, List.nodup_nil, fun _ h => absurd h List.not_mem_nil⟩

theorem single (start slot : Nat) (name : String) (binding : Binding) (index : Nat)
    (hle : base ≤ limit) :
    Spans start slot (slot + 1) base limit [⟨start, slot, name, binding, index⟩] := by
  refine ⟨Nat.le_succ _, hle, List.nodup_singleton _, fun d hd => ?_⟩
  obtain rfl := List.mem_singleton.1 hd
  exact .inl ⟨rfl, Nat.le_refl _, Nat.lt_succ_self _⟩

/-- More indices. -/
theorem mono {base' limit' : Nat} (spans : Spans start slot slot' base limit ds)
    (hbase : base' ≤ base) (hlimit : limit ≤ limit') : Spans start slot slot' base' limit' ds := by
  refine ⟨spans.slots, Nat.le_trans hbase (Nat.le_trans spans.indices hlimit), spans.nodup, fun d hd => ?_⟩
  exact (spans.within d hd).imp_right fun h => ⟨Nat.le_trans hbase h.1, Nat.lt_of_lt_of_le h.2 hlimit⟩

/-- Declarations that are all in other scopes. -/
theorem other (spans : Spans start slot slot base limit ds) (start' slot' : Nat) :
    Spans start' slot' slot' base limit ds := by
  refine ⟨Nat.le_refl _, spans.indices, spans.nodup, fun d hd => .inr ?_⟩
  rcases spans.within d hd with ⟨-, hle, hlt⟩ | h
  · exact absurd (Nat.lt_of_le_of_lt hle hlt) (Nat.lt_irrefl _)
  · exact h

/-- Declarations of parts that follow each other. -/
theorem append (hfirst : Spans start slot middle base between first)
    (hsecond : Spans start middle slot' between limit second) (before : start < base ∨ slot = slot') :
    Spans start slot slot' base limit (first ++ second) := by
  have hslots := hfirst.slots
  have hslots' := hsecond.slots
  have hindices := hfirst.indices
  have hindices' := hsecond.indices
  refine ⟨Nat.le_trans hslots hslots', Nat.le_trans hindices hindices', ?_, fun d hd => ?_⟩
  · rw [List.map_append]
    refine List.nodup_append'.2 ⟨hfirst.nodup, hsecond.nodup, fun key hkey hkey' => ?_⟩
    obtain ⟨d, hd, rfl⟩ := List.mem_map.1 hkey
    obtain ⟨d', hd', heq⟩ := List.mem_map.1 hkey'
    obtain ⟨hstart, hslot⟩ := Prod.mk.inj heq
    have hwithin := hfirst.within d hd
    have hwithin' := hsecond.within d' hd'
    omega
  · rcases List.mem_append.1 hd with hd | hd
    · have hwithin := hfirst.within d hd
      omega
    · have hwithin := hsecond.within d hd
      omega

/-- The declarations of a scope and of those inside are in scopes that are opened from its start on. -/
theorem scope (spans : Spans base 0 slot' (base + 1) limit ds) (start slot : Nat) :
    Spans start slot slot base limit ds := by
  have hlt := spans.indices
  refine ⟨Nat.le_refl _, Nat.le_of_lt hlt, spans.nodup, fun d hd => .inr ?_⟩
  have hwithin := spans.within d hd
  omega

/-- The slot determines the declaration. -/
theorem unique (spans : Spans start slot slot' base limit ds) {d d' : Declaration} (hd : d ∈ ds)
    (hd' : d' ∈ ds) (hstart : d.start = d'.start) (hslot : d.slot = d'.slot) : d = d' :=
  List.inj_on_of_nodup_map spans.nodup hd hd' (Prod.ext hstart hslot)

end Spans

/-! ## Blocks -/

/-- The declarations in a body have slots and indices of their own. -/
def BodySpans (body : List Stmt) : Prop :=
  ∀ start slot base : Nat, start < base ∨ declared body = [] →
    Spans start slot (slot + (declared body).length) base (base + bodyLength body)
      (bodyDeclarations start slot base body)

theorem BodySpans.block {body : List Stmt} (hbody : BodySpans body) (start slot base : Nat) :
    Spans start slot slot base (base + blockLength (declared body) (bodyLength body))
      (blockDeclarations (declared body) base fun start base => bodyDeclarations start 0 base body) := by
  unfold blockDeclarations blockLength
  split
  next hempty =>
    have hnil := List.isEmpty_iff.1 hempty
    have spans := hbody base 0 base (.inr hnil)
    rw [hnil] at spans
    exact spans.other start slot
  next =>
    have spans := hbody base 0 (base + 1) (.inl (Nat.lt_succ_self base))
    exact (spans.scope start slot).mono (Nat.le_refl _) (by omega)

/-! ## Expressions and statements -/

mutual

/-- The scopes in an expression are opened in its code. -/
theorem Expr.spans (e : Expr) (tail : Bool) (start slot base : Nat) :
    Spans start slot slot base (base + e.codeLength tail) (e.declarations tail base) := by
  cases e with
  | number | text | bool | null | name | newChannel => exact .nil start slot (Nat.le_add_right _ _)
  | unary _ e | receive e | assign _ e =>
    refine (e.spans false start slot base).mono (Nat.le_refl _) ?_
    simp only [Expr.codeLength]
    omega
  | binary _ l r =>
    refine ((l.spans false start slot base).append (r.spans false start slot _) (.inr rfl)).mono
      (Nat.le_refl _) ?_
    simp only [Expr.codeLength]
    omega
  | logical op l r =>
    have hl := l.spans false start slot base
    cases op with
    | and =>
      refine (hl.append ((r.spans false start slot _).mono (Nat.le_succ _) (Nat.le_refl _))
        (.inr rfl)).mono (Nat.le_refl _) ?_
      simp only [Expr.codeLength]
      omega
    | or =>
      refine (hl.append ((r.spans false start slot _).mono (Nat.le_add_right _ 3) (Nat.le_refl _))
        (.inr rfl)).mono (Nat.le_refl _) ?_
      simp only [Expr.codeLength]
      omega
  | cond test thenExpr elseExpr =>
    have htest := (test.spans false start slot base).mono (Nat.le_refl _) (Nat.le_succ _)
    have hthen := thenExpr.spans tail start slot (base + test.codeLength false + 1)
    have helse := elseExpr.spans tail start slot (if tail then
      base + test.codeLength false + 1 + thenExpr.codeLength tail
      else base + test.codeLength false + 1 + thenExpr.codeLength tail + 1)
    refine ((htest.append hthen (.inr rfl)).append (helse.mono ?_ (Nat.le_refl _)) (.inr rfl)).mono
      (Nat.le_refl _) ?_
    · split <;> omega
    · simp only [Expr.codeLength]
      split <;> omega
  | call f arguments =>
    refine ((f.spans false start slot base).append (spansAll arguments start slot _) (.inr rfl)).mono
      (Nat.le_refl _) ?_
    simp only [Expr.codeLength]
    omega
  | method receiver _ arguments =>
    refine ((receiver.spans false start slot base).append (spansAll arguments start slot _)
      (.inr rfl)).mono (Nat.le_refl _) ?_
    simp only [Expr.codeLength]
    omega
  | function _ body =>
    refine ((bodySpans body).block start slot (base + 2)).mono (Nat.le_add_right _ _) ?_
    simp only [Expr.codeLength]
    omega

theorem spansAll (es : List Expr) (start slot base : Nat) :
    Spans start slot slot base (base + lengthAll es) (declarationsAll base es) := by
  match es with
  | [] => exact .nil start slot (Nat.le_add_right _ _)
  | e :: rest =>
    refine ((e.spans false start slot base).append (spansAll rest start slot _) (.inr rfl)).mono
      (Nat.le_refl _) ?_
    simp only [lengthAll]
    omega

/-- A statement declares at most one name in the scope around. -/
theorem Stmt.spans (s : Stmt) (start slot base : Nat) (before : start < base ∨ s.declares? = none) :
    Spans start slot (slot + s.declares?.toList.length) base (base + s.codeLength)
      (s.declarations start slot base) := by
  have declares : ∀ {name : String} {b : Binding} {n index : Nat} {ds : List Declaration},
      s.declares? = some (name, b) → Spans start slot slot base (base + n) ds →
      base + n ≤ base + s.codeLength →
      Spans start slot (slot + s.declares?.toList.length) base (base + s.codeLength)
        (ds ++ [⟨start, slot, name, b, index⟩]) := by
    intro name b n index ds hdeclares spans hle
    rw [hdeclares] at before ⊢
    exact spans.append (.single start slot name b index hle)
      (before.imp_right fun h => absurd h (Option.some_ne_none _))
  cases s with
  | expr e => exact e.spans false start slot base
  | var name type value =>
    cases value with
    | none => exact declares (n := 0) rfl (.nil start slot (Nat.le_refl _)) (Nat.le_add_right _ _)
    | some e => exact declares rfl (e.spans false start slot base) (Nat.le_succ _)
  | const name e => exact declares rfl (e.spans false start slot base) (Nat.le_succ _)
  | function name parameters body =>
    refine declares (n := blockLength (declared body) (bodyLength body) + 2) rfl
      (((bodySpans body).block start slot (base + 2)).mono (Nat.le_add_right _ _) ?_) ?_
    · omega
    · simp only [Stmt.codeLength]
      omega
  | ret value =>
    cases value with
    | none => exact .nil start slot (Nat.le_add_right _ _)
    | some e => exact e.spans true start slot base
  | cond test thenBody elseBody =>
    have htest := (test.spans false start slot base).mono (Nat.le_refl _) (Nat.le_succ _)
    have hthen := (bodySpans thenBody).block start slot (base + test.codeLength false + 1)
    cases elseBody with
    | none =>
      refine (htest.append hthen (.inr rfl)).mono (Nat.le_refl _) ?_
      simp only [Stmt.codeLength]
      omega
    | some elseBody =>
      refine ((htest.append hthen (.inr rfl)).append (((bodySpans elseBody).block start slot _).mono
        (Nat.le_succ _) (Nat.le_refl _)) (.inr rfl)).mono (Nat.le_refl _) ?_
      simp only [Stmt.codeLength]
      omega
  | loop first test after body =>
    -- The scope of the loop is opened at its start.
    have hbefore := Nat.lt_succ_self base
    have hfirst := spansFirst first base (base + 1) hbefore
    generalize 0 + (first.bind Stmt.declares?).toList.length = last at hfirst
    have htest := spansPart test base last (base + 1 + firstLength first)
    have hbody := (bodySpans body).block base last (base + 1 + firstLength first + partLength test)
    have hafter := spansPart after base last (base + 1 + firstLength first + partLength test +
      blockLength (declared body) (bodyLength body) + 1)
    have spans := ((hfirst.append htest (.inl hbefore)).append hbody (.inl hbefore)).append
      (hafter.mono (Nat.le_succ _) (Nat.le_refl _)) (.inl hbefore)
    refine (spans.scope start slot).mono (Nat.le_refl _) ?_
    simp only [Stmt.codeLength]
    omega
  | breakLoop => exact .nil start slot (Nat.le_add_right _ _)
  | continueLoop => exact .nil start slot (Nat.le_add_right _ _)
  | spawn e =>
    cases e with
    | call f arguments =>
      refine ((f.spans false start slot base).append (spansAll arguments start slot _)
        (.inr rfl)).mono (Nat.le_refl _) ?_
      simp only [Stmt.codeLength]
      omega
    | _ => exact .nil start slot (Nat.le_add_right _ _)
  | send channel value =>
    refine ((channel.spans false start slot base).append (value.spans false start slot _)
      (.inr rfl)).mono (Nat.le_refl _) ?_
    simp only [Stmt.codeLength]
    omega
  | block body => exact (bodySpans body).block start slot base

theorem bodySpans (body : List Stmt) : BodySpans body := by
  intro start slot base before
  match body with
  | [] => exact .nil start slot (Nat.le_add_right _ _)
  | s :: rest =>
    rw [declared_cons, List.append_eq_nil_iff] at before
    have hs := s.spans start slot base (before.imp_right fun h => Option.toList_eq_nil_iff.1 h.1)
    have hrest := bodySpans rest start (slot + s.declares?.toList.length) (base + s.codeLength + 1)
      (before.imp (fun h => by omega) And.right)
    rw [declared_cons, List.length_append, ← Nat.add_assoc]
    cases rest with
    | nil => exact hs.append (.nil start _ (Nat.le_refl _)) (before.imp_right fun h => by simp [h])
    | cons s' rest =>
      refine (hs.append (hrest.mono (Nat.le_succ _) (Nat.le_refl _)) (before.imp_right fun h => ?_)).mono
        (Nat.le_refl _) ?_
      · rw [h.1, h.2]
        rfl
      · simp only [bodyLength]
        omega

/-- What comes first in a loop declares names in the scope of the loop. -/
theorem spansFirst (first : Option Stmt) (start base : Nat) (before : start < base) :
    Spans start 0 (0 + (first.bind Stmt.declares?).toList.length) base (base + firstLength first)
      (firstDeclarations start base first) := by
  match first with
  | none => exact .nil start 0 (Nat.le_add_right _ _)
  | some s => exact (s.spans start 0 base (.inl before)).mono (Nat.le_refl _) (Nat.le_succ _)

theorem spansPart (e : Option Expr) (start slot base : Nat) :
    Spans start slot slot base (base + partLength e) (partDeclarations base e) := by
  match e with
  | none => exact .nil start slot (Nat.le_add_right _ _)
  | some e => exact (e.spans false start slot base).mono (Nat.le_refl _) (Nat.le_succ _)

end

/-- The scope and the slot determine the declaration. -/
theorem Module.declaration_unique {m : Module} {d d' : Declaration} (hd : d ∈ m.declarations)
    (hd' : d' ∈ m.declarations) (hstart : d.start = d'.start) (hslot : d.slot = d'.slot) : d = d' :=
  ((bodySpans m.body).block 0 0 0).unique hd hd' hstart hslot

end ChannelMachine.Source
