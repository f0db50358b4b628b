import ChannelMachine.Code.Listing
import ChannelMachine.Proofs.Decimal.Order
import ChannelMachine.Proofs.Json.Numerals
import ChannelMachine.Proofs.Text.Quoted

/-!
# Reading listings

A listing tells everything about its program (`listing_identifies`).  A mnemonic ends at the first space
behind it and the mnemonics are all different, so a line tells which instruction it shows, and the operands
of each instruction can be read back.  No operand breaks the line, so the lines of a listing are those of
its instructions.
-/

namespace ChannelMachine

open Decimal Text

/-! ## Numbers -/

namespace Json.NumberForm

/-- A character that is neither a digit nor a sign is not in a lexeme. -/
theorem not_mem_text {f : NumberForm} (proper : f.Proper) : '\n' ∉ f.text := by
  have hdigits : ∀ l : List Char, AllDigits l → '\n' ∉ l := fun l hl hin => nomatch hl _ hin
  have hexponent : '\n' ∉ f.exponentText := by
    unfold exponentText
    split
    next => exact List.not_mem_nil
    next sign digits heq =>
      have hnot := hdigits digits (proper.exponent sign digits heq).1
      cases sign <;> simpa [ExponentSign.text] using hnot
  have hfraction : '\n' ∉ f.fractionText := by
    have hnot := hdigits f.fraction proper.fraction
    unfold fractionText
    split <;> simp [hnot]
  have hsign : '\n' ∉ (if f.negative then ['-'] else []) := by cases f.negative <;> decide
  have hwhole := hdigits f.whole proper.whole.1
  simp only [text, List.mem_append, hsign, hwhole, hfraction, hexponent, or_self, not_false_eq_true]

end Json.NumberForm

/-- A finite number can be read back from a listing. -/
theorem read_listNumber {x : Number} {b : Binary} (h : x.binary? = some b) :
    Json.numberOf? (listNumber x).toList = some x ∧
      ∃ f : Json.NumberForm, f.Proper ∧ f.text = (listNumber x).toList := by
  have hlist : listNumber x = listed.write b := by rw [listNumber, h]
  rw [hlist]
  exact ⟨Json.numberOf?_write listed h, Json.formOf listed b, Json.formOf_proper listed b,
    Json.formOf_text listed b⟩

/-- An infinite number is told by its sign. -/
theorem listNumber_of_infinite {x : Number} (h : x.binary? = none) (hnan : x.isNaN = false) :
    listNumber x = if x.isNegative then "-inf" else "inf" := by
  rw [listNumber, h]
  simp only [hnan, Bool.false_eq_true, if_false]

/-- The words for infinite numbers are no number lexemes. -/
theorem listNumber_ne {x y : Number} {b : Binary} (hx : x.binary? = some b) (hy : y.binary? = none)
    (hnan : y.isNaN = false) : listNumber x ≠ listNumber y := by
  intro heq
  obtain ⟨-, f, proper, htext⟩ := read_listNumber hx
  have hread : Json.number? (f.text ++ []) = some (f.text, []) := Json.NumberForm.number?_text proper nofun
  rw [List.append_nil, htext, heq, listNumber_of_infinite hy hnan] at hread
  split at hread <;> cases hread

/-- Numbers are listed differently, unless one is NaN. -/
theorem listNumber_injective {x y : Number} (hx : x.isNaN = false) (hy : y.isNaN = false)
    (h : listNumber x = listNumber y) : x = y := by
  cases hbx : x.binary? with
  | some b =>
    cases hby : y.binary? with
    | some c =>
      have hread := (read_listNumber hbx).1
      rw [h, (read_listNumber hby).1] at hread
      exact (Option.some.inj hread).symm
    | none => exact absurd h (listNumber_ne hbx hby hy)
  | none =>
    cases hby : y.binary? with
    | some c => exact absurd h.symm (listNumber_ne hby hbx hx)
    | none =>
      rw [listNumber_of_infinite hbx hx, listNumber_of_infinite hby hy] at h
      have hsign : x.isNegative = y.isNegative := by
        cases hnx : x.isNegative <;> cases hny : y.isNegative <;> simp [hnx, hny] at h ⊢
      have hrank : x.rank = y.rank := by
        rw [Number.rank_of_infinite hbx hx, Number.rank_of_infinite hby hy, hsign]
      have hbits : x.bits.toNat = y.bits.toNat := by
        unfold Number.rank at hrank
        rw [hsign] at hrank
        split at hrank <;> omega
      exact congrArg Number.mk (UInt64.toNat_inj.1 hbits)

theorem not_mem_listNumber (x : Number) : '\n' ∉ (listNumber x).toList := by
  cases h : x.binary? with
  | some b =>
    obtain ⟨-, f, proper, htext⟩ := read_listNumber h
    rw [← htext]
    exact Json.NumberForm.not_mem_text proper
  | none =>
    rw [listNumber, h]
    dsimp only
    split_ifs <;> decide

/-! ## Natural numbers and positions -/

theorem toDigits_injective : Function.Injective (Nat.toDigits 10) :=
  Function.LeftInverse.injective Json.digitsValue_toDigits

/-- Digits end where no digit follows. -/
theorem toDigits_append {n k : Nat} {l m : List Char}
    (hl : ∀ c, l.head? = some c → Json.isDigit c = false)
    (hm : ∀ c, m.head? = some c → Json.isDigit c = false)
    (h : Nat.toDigits 10 n ++ l = Nat.toDigits 10 k ++ m) : n = k ∧ l = m := by
  obtain ⟨htake, hdrop⟩ := Json.takeWhile_digits (Json.allDigits_toDigits n) hl
  obtain ⟨htake', hdrop'⟩ := Json.takeWhile_digits (Json.allDigits_toDigits k) hm
  rw [h] at htake hdrop
  exact ⟨toDigits_injective (htake.symm.trans htake'), hdrop.symm.trans hdrop'⟩

theorem toList_listNat (n : Nat) : (listNat n).toList = Nat.toDigits 10 n := String.toList_ofList

theorem listNat_injective {n k : Nat} (h : listNat n = listNat k) : n = k :=
  toDigits_injective (String.ofList_injective h)

theorem not_mem_toDigits (n : Nat) : '\n' ∉ Nat.toDigits 10 n := fun hin =>
  nomatch Json.allDigits_toDigits n _ hin

/-- A position, with the numbers apart. -/
theorem Position.list_injective {p q : Position} (h : p.list = q.list) : p = q := by
  have hlist := congrArg String.toList h
  simp only [Position.list, String.toList_append, toList_listNat, List.append_assoc] at hlist
  have hcomma : ∀ l c, (", ".toList ++ l).head? = some c → Json.isDigit c = false := by
    rintro l c ⟨⟩
    rfl
  have hclose : ∀ c, ")".toList.head? = some c → Json.isDigit c = false := by
    rintro c ⟨⟩
    rfl
  obtain ⟨hframe, hrest⟩ := toDigits_append (hcomma _) (hcomma _) (List.append_cancel_left hlist)
  obtain ⟨hslot, -⟩ := toDigits_append hclose hclose (List.append_cancel_left hrest)
  cases p
  cases q
  congr

/-- What is listed of a function. -/
theorem closure_injective {n n' k k' : Nat}
    (h : "arity=" ++ listNat n ++ " addr=" ++ listNat k = "arity=" ++ listNat n' ++ " addr=" ++ listNat k') :
    n = n' ∧ k = k' := by
  have hlist := congrArg String.toList h
  simp only [String.toList_append, toList_listNat, List.append_assoc] at hlist
  have hspace : ∀ l c, (" addr=".toList ++ l).head? = some c → Json.isDigit c = false := by
    rintro l c ⟨⟩
    rfl
  obtain ⟨harity, hrest⟩ := toDigits_append (hspace _) (hspace _) (List.append_cancel_left hlist)
  exact ⟨harity, toDigits_injective (List.append_cancel_left hrest)⟩

/-! ## Literals -/

/-- The literal is no NaN. -/
def Literal.NaNFree (l : Literal) : Prop := ∀ x, l = .number x → x.isNaN = false

theorem Literal.list_injective {l m : Literal} (hl : l.NaNFree) (hm : m.NaNFree)
    (h : l.list = m.list) : l = m := by
  have hlist := congrArg String.toList h
  cases l with
  | number x =>
    cases m with
    | number y =>
      simp only [Literal.list, String.append_left_inj, String.append_right_inj] at h
      rw [listNumber_injective (hl x rfl) (hm y rfl) h]
    | bool b => cases b <;> simp [Literal.list] at hlist
    | _ => simp [Literal.list] at hlist
  | text s =>
    cases m with
    | text t =>
      simp only [Literal.list, String.append_left_inj, String.append_right_inj] at h
      rw [quote_injective h]
    | bool b => cases b <;> simp [Literal.list] at hlist
    | _ => simp [Literal.list] at hlist
  | bool b =>
    cases m with
    | bool c => cases b <;> cases c <;> simp [Literal.list] at h ⊢
    | _ => cases b <;> simp [Literal.list] at hlist
  | null =>
    cases m with
    | null => rfl
    | bool b => cases b <;> simp [Literal.list] at hlist
    | _ => simp [Literal.list] at hlist
  | undefined =>
    cases m with
    | undefined => rfl
    | bool b => cases b <;> simp [Literal.list] at hlist
    | _ => simp [Literal.list] at hlist

theorem Literal.not_mem_list (l : Literal) : '\n' ∉ l.list.toList := by
  cases l with
  | number x =>
    have hnot := not_mem_listNumber x
    simp [Literal.list, hnot]
  | bool b => cases b <;> decide
  | text s =>
    have hnot := not_mem_quote s
    simp [Literal.list, hnot]
  | null => decide
  | undefined => decide

/-! ## Instructions -/

namespace Instruction

/-- The mnemonics, in the order of the instructions. -/
def mnemonics : List String := ["LDC", "LD", "ASSIGN", "LDF", "CALL", "TAIL_CALL", "RESET",
  "ENTER_SCOPE", "EXIT_SCOPE", "POP", "UNOP", "BINOP", "JOF", "GOTO", "LOOP_MARKER", "BREAK", "CONTINUE",
  "GO", "GO_END", "NEW_CHAN", "SEND", "RECV", "NEW_WAITGROUP", "WG_ADD", "WG_DONE", "WG_WAIT", "DONE"]

theorem getElem?_mnemonics (i : Instruction) : mnemonics[i.ctorIdx]? = some i.mnemonic := by
  cases i <;> rfl

/-- Different instructions have different mnemonics. -/
theorem ctorIdx_eq_of_mnemonic {i j : Instruction} (h : i.mnemonic = j.mnemonic) :
    i.ctorIdx = j.ctorIdx := by
  have hnodup : mnemonics.Nodup := by decide
  have hi := i.getElem?_mnemonics
  obtain ⟨hlt, -⟩ := List.getElem?_eq_some_iff.1 hi
  exact (List.getElem?_inj hlt hnodup).1 (hi.trans (h ▸ j.getElem?_mnemonics.symm))

/-- A mnemonic is one word. -/
theorem not_mem_mnemonic (i : Instruction) : ' ' ∉ i.mnemonic.toList ∧ '\n' ∉ i.mnemonic.toList := by
  have hwords : ∀ s ∈ mnemonics, ' ' ∉ s.toList ∧ '\n' ∉ s.toList := by decide
  exact hwords _ (List.mem_of_getElem? i.getElem?_mnemonics)

/-- What is listed behind the mnemonic. -/
def operandText (i : Instruction) : List Char :=
  match i.operands? with
  | some operands => ' ' :: operands.toList
  | none => []

theorem toList_list (i : Instruction) : i.list.toList = i.mnemonic.toList ++ i.operandText := by
  unfold list operandText
  cases i.operands? with
  | none => exact (List.append_nil _).symm
  | some operands => simp

/-- The operands are set off by a space. -/
theorem head?_operandText {i : Instruction} {c : Char} (hc : i.operandText.head? = some c) : c = ' ' := by
  unfold operandText at hc
  split at hc
  next => exact (Option.some.inj hc).symm
  next => cases hc

theorem split_list (i : Instruction) : i.list.toList.takeWhile (· ≠ ' ') = i.mnemonic.toList ∧
    i.list.toList.dropWhile (· ≠ ' ') = i.operandText := by
  have hword : ∀ c ∈ i.mnemonic.toList, decide (c ≠ ' ') = true := fun c hc =>
    decide_eq_true fun heq => i.not_mem_mnemonic.1 (heq ▸ hc)
  rw [toList_list, List.takeWhile_append_of_pos hword, List.dropWhile_append_of_pos hword]
  cases hrest : i.operandText with
  | nil => exact ⟨List.append_nil _, rfl⟩
  | cons c rest =>
    obtain rfl := head?_operandText (i := i) (congrArg List.head? hrest)
    exact ⟨List.append_nil _, rfl⟩

/-- A line tells the mnemonic and the operands. -/
theorem eq_of_list {i j : Instruction} (h : i.list = j.list) :
    i.mnemonic = j.mnemonic ∧ i.operands? = j.operands? := by
  obtain ⟨hword, hrest⟩ := i.split_list
  obtain ⟨hword', hrest'⟩ := j.split_list
  rw [h] at hword hrest
  refine ⟨String.toList_inj.1 (hword.symm.trans hword'), ?_⟩
  have htext := hrest.symm.trans hrest'
  unfold operandText at htext
  cases hi : i.operands? <;> cases hj : j.operands? <;> rw [hi, hj] at htext <;> simp at htext ⊢
  exact String.toList_inj.1 htext

/-- The instruction pushes no NaN. -/
def NaNFree (i : Instruction) : Prop := ∀ l, i = constant l → l.NaNFree

/-- The operands of an instruction tell them, if it is known which instruction it is. -/
theorem eq_of_operands {i j : Instruction} (hi : i.NaNFree) (hj : j.NaNFree)
    (hindex : i.ctorIdx = j.ctorIdx) (h : i.operands? = j.operands?) : i = j := by
  cases i <;> cases j <;> cases hindex
  case constant.constant l m =>
    rw [Literal.list_injective (hi l rfl) (hj m rfl) (Option.some.inj h)]
  case load.load | store.store => rw [Position.list_injective (Option.some.inj h)]
  case closure.closure =>
    obtain ⟨rfl, rfl⟩ := closure_injective (Option.some.inj h)
    rfl
  case unary.unary op op' =>
    cases op <;> cases op' <;> simp [operands?, UnaryOp.list] at h ⊢
  case binary.binary op op' =>
    cases op <;> cases op' <;> simp [operands?, BinaryOp.symbol] at h ⊢
  case loopEnd.loopEnd | newChannel.newChannel =>
    simp only [operands?, Option.some.injEq, String.append_right_inj] at h
    rw [listNat_injective h]
  case call.call | tailCall.tailCall | spawn.spawn | enterScope.enterScope | jumpUnless.jumpUnless |
      jump.jump => rw [listNat_injective (Option.some.inj h)]
  all_goals rfl

theorem list_injective {i j : Instruction} (hi : i.NaNFree) (hj : j.NaNFree) (h : i.list = j.list) :
    i = j := by
  obtain ⟨hmnemonic, hoperands⟩ := eq_of_list h
  exact eq_of_operands hi hj (ctorIdx_eq_of_mnemonic hmnemonic) hoperands

/-- An instruction stays on its line. -/
theorem not_mem_list (i : Instruction) : '\n' ∉ i.list.toList := by
  rw [toList_list, List.mem_append, not_or]
  refine ⟨i.not_mem_mnemonic.2, ?_⟩
  have hnat : ∀ n, '\n' ∉ (listNat n).toList := fun n => toList_listNat n ▸ not_mem_toDigits n
  cases i with
  | constant l => simp [operandText, operands?, l.not_mem_list]
  | unary op => cases op <;> decide
  | binary op => cases op <;> decide
  | _ => simp [operandText, operands?, Position.list, hnat]

end Instruction

/-! ## Programs -/

namespace Program

/-- No literal of the program is NaN. -/
def NaNFree (p : Program) : Prop := ∀ i ∈ p.code, i.NaNFree

/-- The line of an instruction without its end. -/
def lineText (index : Nat) (i : Instruction) : List Char :=
  (listIndex index).toList ++ [' ', ' '] ++ i.list.toList

theorem toList_line (index : Nat) (i : Instruction) :
    (line index i).toList = lineText index i ++ ['\n'] := by
  simp [line, lineText]

theorem not_mem_lineText (index : Nat) (i : Instruction) : '\n' ∉ lineText index i := by
  have hdigits := not_mem_toDigits index
  have hlist := i.not_mem_list
  simp [lineText, listIndex, hdigits, hlist, List.mem_replicate]

/-- The lines of a listing. -/
def lines (p : Program) : List (List Char) := p.code.toList.mapIdx lineText

theorem toList_listing (p : Program) : p.listing.toList = p.lines.flatMap (· ++ ['\n']) := by
  unfold listing lines
  rw [String.toList_join, List.mapIdx_eq_zipIdx_map, List.mapIdx_eq_zipIdx_map, List.flatMap_map,
    List.flatMap_map]
  exact congrArg (List.flatMap · _) (funext fun (i, k) => toList_line k i)

/-- Lines are told from each other by their ends. -/
theorem lines_injective {L M : List (List Char)} (hL : ∀ l ∈ L, '\n' ∉ l) (hM : ∀ l ∈ M, '\n' ∉ l)
    (h : L.flatMap (· ++ ['\n']) = M.flatMap (· ++ ['\n'])) : L = M := by
  have hfirst : ∀ (l rest : List Char), '\n' ∉ l → (l ++ '\n' :: rest).takeWhile (· ≠ '\n') = l := by
    intro l rest hl
    have hall : ∀ c ∈ l, decide (c ≠ '\n') = true := fun c hc => decide_eq_true fun heq => hl (heq ▸ hc)
    rw [List.takeWhile_append_of_pos hall]
    exact List.append_nil l
  induction L generalizing M with
  | nil => cases M <;> simp at h ⊢
  | cons l L ih =>
    cases M with
    | nil => simp at h
    | cons m M =>
      obtain ⟨hl, hrest⟩ := List.forall_mem_cons.1 hL
      obtain ⟨hm, hrest'⟩ := List.forall_mem_cons.1 hM
      simp only [List.flatMap_cons, List.append_assoc, List.singleton_append] at h
      have heq := congrArg (List.takeWhile (· ≠ '\n')) h
      rw [hfirst l _ hl, hfirst m _ hm] at heq
      subst heq
      rw [ih hrest hrest' (List.cons.inj (List.append_cancel_left h)).2]

theorem not_mem_of_mem_lines {p : Program} {l : List Char} (hl : l ∈ p.lines) : '\n' ∉ l := by
  obtain ⟨k, hk, rfl⟩ := List.mem_mapIdx.1 hl
  exact not_mem_lineText k _

/-- Programs without NaN have different lines. -/
theorem eq_of_lines {p q : Program} (hp : p.NaNFree) (hq : q.NaNFree) (h : p.lines = q.lines) :
    p = q := by
  have hsize := congrArg List.length h
  simp only [lines, List.length_mapIdx, Array.length_toList] at hsize
  have hcode : p.code = q.code := by
    refine Array.ext hsize fun k hk hk' => ?_
    have hline := congrArg (·[k]?) h
    simp only [lines, List.getElem?_mapIdx, Array.getElem?_toList, Array.getElem?_eq_getElem hk,
      Array.getElem?_eq_getElem hk', Option.map_some, Option.some.injEq] at hline
    exact Instruction.list_injective (hp _ (Array.getElem_mem hk)) (hq _ (Array.getElem_mem hk'))
      (String.toList_inj.1 (List.append_cancel_left hline))
  cases p
  cases q
  exact congrArg Program.mk hcode

/-- A number in decimal digits, filled up with spaces on the left to a width. -/
def RightAligned (width n : Nat) (text : List Char) : Prop :=
  text.length = max width (Nat.toDigits 10 n).length ∧
    ∃ spaces, text = List.replicate spaces ' ' ++ Nat.toDigits 10 n

/-- A line shows the instruction at an index. -/
structure Shows (index : Nat) (i : Instruction) (line : List Char) : Prop where
  /-- It is not broken. -/
  unbroken : '\n' ∉ line
  /-- It starts with the index, two spaces and the mnemonic, which is a word of its own. -/
  starts : ∃ front rest, RightAligned 4 index front ∧
    line = front ++ [' ', ' '] ++ i.mnemonic.toList ++ rest ∧ ∀ c, rest.head? = some c → c = ' '

theorem shows_lineText (index : Nat) (i : Instruction) : Shows index i (lineText index i) where
  unbroken := not_mem_lineText index i
  starts := by
    refine ⟨(listIndex index).toList, i.operandText, ⟨?_, 4 - (Nat.toDigits 10 index).length, ?_⟩, ?_,
      fun _ => Instruction.head?_operandText⟩
    · rw [listIndex, String.toList_ofList, List.length_append, List.length_replicate]
      omega
    · exact String.toList_ofList
    · rw [lineText, i.toList_list, List.append_assoc _ _ i.operandText]

/-- A text shows a program with one instruction a line, and each line has an end. -/
def IsListing (p : Program) (text : String) : Prop :=
  ∃ lines : List (List Char), text.toList = lines.flatMap (· ++ ['\n']) ∧
    lines.length = p.code.size ∧
    ∀ k i, p.code[k]? = some i → ∃ line, lines[k]? = some line ∧ Shows k i line

theorem isListing_listing (p : Program) : p.IsListing p.listing := by
  refine ⟨p.lines, p.toList_listing, by simp [lines], fun k i hi => ⟨lineText k i, ?_, ?_⟩⟩
  · rw [lines, List.getElem?_mapIdx, Array.getElem?_toList, hi]
    rfl
  · exact shows_lineText k i

/-- A listing has one line for each instruction, and programs without NaN that have the same listing are the
same. -/
theorem listing_identifies (p : Program) : p.IsListing p.listing ∧
    ∀ q : Program, p.NaNFree → q.NaNFree → (p.listing = q.listing ↔ p = q) := by
  refine ⟨p.isListing_listing, fun q hp hq => ⟨fun h => ?_, congrArg listing⟩⟩
  refine eq_of_lines hp hq (lines_injective (fun _ => not_mem_of_mem_lines)
    (fun _ => not_mem_of_mem_lines) ?_)
  rw [← toList_listing, ← toList_listing, h]

/-- It pushes a text that has a line break and what looks like a line. -/
def lookalike : Program := ⟨#[.constant (.text "a\n   1  POP")]⟩

/-- It pushes the first part of the text and pops it. -/
def imitated : Program := ⟨#[.constant (.text "a"), .pop]⟩

/-- They are listed differently. -/
theorem listing_identifies_lookalike :
    lookalike.NaNFree ∧ imitated.NaNFree ∧ lookalike.listing ≠ imitated.listing := by
  have hp : lookalike.NaNFree := by
    simp [lookalike, NaNFree, Instruction.NaNFree, Literal.NaNFree]
  have hq : imitated.NaNFree := by
    simp [imitated, NaNFree, Instruction.NaNFree, Literal.NaNFree]
  refine ⟨hp, hq, fun h => ?_⟩
  exact absurd ((lookalike.listing_identifies.2 imitated hp hq).1 h) (by decide)

end Program

end ChannelMachine
