import ChannelMachine.Code.Format
import ChannelMachine.Proofs.Json.Reading

/-!
# Program files are read back

A `Storable` program is one that a file can hold: its number literals are finite and its operands have
64 bits.  The text of its file is read as the program (`Program.ofText?_fileText`).  Each kind of
instruction is a variant of its own name, and each form of operands has a reader that inverts the
writer.
-/

namespace ChannelMachine

namespace Json

/-! ## Values -/

theorem nameOf?_escape (name : String) : nameOf? (escape name.toList) = some name := by
  rw [nameOf?, unescape?_escape, Option.map_some, String.ofList_toList]

theorem text?_ofText (text : String) : (ofText text).text? = some text := nameOf?_escape text

theorem natural?_ofNat {n : Nat} (h : n < naturalLimit) : (ofNat n).natural? = some n :=
  naturalOf?_toDigits h

theorem lexed_ofText (text : String) : (ofText text).Lexed := .string text.toList

theorem lexed_ofNat (n : Nat) : (ofNat n).Lexed := by
  rw [ofNat, ← naturalForm_text]
  exact .number (naturalForm_proper n)

theorem lexed_ofFields {fields : List (String × Json)} (h : ∀ x ∈ fields, x.2.Lexed) :
    (ofFields fields).Lexed := by
  refine .object (fun x hx => ?_) (fun x hx => ?_)
  · obtain ⟨y, -, rfl⟩ := List.mem_map.1 hx
    exact ⟨y.1.toList, rfl⟩
  · obtain ⟨y, hy, rfl⟩ := List.mem_map.1 hx
    exact h y hy

theorem lexed_ofVariant {name : String} {content : Json} (h : content.Lexed) :
    (ofVariant name content).Lexed :=
  lexed_ofFields fun _ hx => (List.mem_singleton.1 hx) ▸ h

/-! ## Variants and records -/

theorem variant?_ofVariant (name : String) (content : Json) :
    (ofVariant name content).variant? = some (name, some content) := by
  change (nameOf? (escape name.toList)).map (·, some content) = _
  rw [nameOf?_escape]
  rfl

theorem plain?_ofText (limit : Nat) (name : String) : (ofText name).plain? limit = some name := by
  have hvariant : (ofText name).variant? = some (name, none) := by
    change (nameOf? (escape name.toList)).map (·, none) = _
    rw [nameOf?_escape]
    rfl
  rw [plain?, hvariant]

/-- A variant with content is not taken for one without. -/
theorem plain?_ofVariant {content : Json} (h : content ≠ .null) (limit : Nat) (name : String) :
    (ofVariant name content).plain? limit = none := by
  rw [plain?, variant?_ofVariant]
  split
  next heq => cases heq
  next heq =>
    obtain rfl := Option.some.inj (Prod.mk.inj (Option.some.inj heq)).2
    exact absurd rfl h
  next => rfl

/-- A name that stands once picks its field. -/
theorem filter_of_nodup {fields : List (String × Json)} (h : (fields.map Prod.fst).Nodup)
    {x : String × Json} (hx : x ∈ fields) : fields.filter (·.1 = x.1) = [x] := by
  induction fields with
  | nil => cases hx
  | cons y fields ih =>
    obtain ⟨hnot, hnodup⟩ := List.nodup_cons.1 h
    rcases List.mem_cons.1 hx with rfl | hmem
    · have hrest : fields.filter (·.1 = x.1) = [] := by
        refine List.filter_eq_nil_iff.2 fun z hz => ?_
        rw [decide_eq_true_eq]
        intro heq
        exact hnot (List.mem_map.2 ⟨z, hz, heq⟩)
      rw [List.filter_cons, if_pos (decide_eq_true rfl), hrest]
    · have hne : y.1 ≠ x.1 := fun heq => hnot (List.mem_map.2 ⟨x, hmem, heq.symm⟩)
      rw [List.filter_cons_of_neg (by rwa [decide_eq_true_eq]), ih hnodup hmem]

theorem mapM_map_of_forall {α β γ : Type} {f : β → Option γ} {name : α → β} {g : α → γ}
    {l : List α} (h : ∀ x ∈ l, f (name x) = some (g x)) :
    (l.map name).mapM f = some (l.map g) := by
  induction l with
  | nil => rfl
  | cons x l ih =>
    obtain ⟨hx, hl⟩ := List.forall_mem_cons.1 h
    rw [List.map_cons, List.mapM_cons, hx, ih hl]
    rfl

theorem record?_object (names : List String) {fields : List (List Char × Json)}
    {named : List (String × Json)}
    (h : fields.mapM (fun x => (nameOf? x.1).map (·, x.2)) = some named) :
    (Json.object fields).record? names = names.mapM fun name =>
      match named.filter (·.1 = name) with
      | [] => some none
      | [(_, value)] => some (some value)
      | _ => none := by
  rw [record?]
  exact h ▸ rfl

/-- A written record is read with its fields in order. -/
theorem record?_ofFields (fields : List (String × Json)) (h : (fields.map Prod.fst).Nodup) :
    (ofFields fields).record? (fields.map Prod.fst) = some (fields.map fun x => some x.2) := by
  have hfields : (fields.map fun x => (escape x.1.toList, x.2)).mapM
      (fun x => (nameOf? x.1).map (·, x.2)) = some (fields.map id) :=
    mapM_map_of_forall fun x _ => by rw [nameOf?_escape]; rfl
  rw [List.map_id] at hfields
  refine (record?_object _ hfields).trans ?_
  refine mapM_map_of_forall fun x hx => ?_
  rw [filter_of_nodup h hx]

theorem naturalRecord?_ofFields {name : String} {n limit : Nat} (h : n < naturalLimit) :
    (ofFields [(name, ofNat n)]).naturalRecord? name (limit + 1) = some n := by
  have hrecord : (ofFields [(name, ofNat n)]).record? [name] = some [some (ofNat n)] :=
    record?_ofFields [(name, ofNat n)] (List.nodup_singleton _)
  rw [naturalRecord?, if_neg (Nat.succ_ne_zero limit), hrecord]
  exact natural?_ofNat h

theorem naturalRecord₂?_ofFields {first second : String} (hne : first ≠ second) {m n limit : Nat}
    (hm : m < naturalLimit) (hn : n < naturalLimit) :
    (ofFields [(first, ofNat m), (second, ofNat n)]).naturalRecord₂? first second (limit + 1) =
      some (m, n) := by
  have hrecord : (ofFields [(first, ofNat m), (second, ofNat n)]).record? [first, second] =
      some [some (ofNat m), some (ofNat n)] :=
    record?_ofFields [(first, ofNat m), (second, ofNat n)] (by simpa using hne)
  rw [naturalRecord₂?, if_neg (Nat.succ_ne_zero limit), hrecord]
  dsimp only [required?]
  rw [natural?_ofNat hm, natural?_ofNat hn]

end Json

/-! ## Operands -/

/-- A literal that a file can hold. -/
def Literal.Storable : Literal → Prop
  | .number x => x.binary? ≠ none
  | _ => True

namespace Instruction

/-- The natural numbers among the operands of an instruction. -/
def operands : Instruction → List Nat
  | load p | store p => [p.frame, p.slot]
  | closure arity entry => [arity, entry]
  | call n | tailCall n | enterScope n | spawn n => [n]
  | jumpUnless target | jump target => [target]
  | loopEnd next => [next]
  | newChannel capacity => [capacity]
  | _ => []

/-- An instruction that a file can hold: its operands have 64 bits, and its number is finite. -/
structure Storable (i : Instruction) : Prop where
  /-- The operands have 64 bits. -/
  operands : ∀ n ∈ i.operands, n < Json.naturalLimit
  /-- The number is finite. -/
  literal : ∀ l, i = constant l → l.Storable

theorem Storable.constant {l : Literal} (h : l.Storable) :
    (constant l).Storable :=
  ⟨nofun, fun _ heq => constant.inj heq ▸ h⟩

/-- An instruction whose operands fit can be stored. -/
theorem storable_of_operand {i : Instruction} {n : Nat} (h : i.operands = [n])
    (hn : n < Json.naturalLimit) : i.Storable := by
  refine ⟨fun m hm => ?_, fun l heq => ?_⟩
  · rw [h] at hm
    exact List.mem_singleton.1 hm ▸ hn
  · rw [heq] at h
    cases h

theorem storable_of_operands {i : Instruction} {m n : Nat} (h : i.operands = [m, n])
    (hm : m < Json.naturalLimit) (hn : n < Json.naturalLimit) : i.Storable := by
  refine ⟨fun k hk => ?_, fun l heq => ?_⟩
  · rw [h] at hk
    rcases List.mem_pair.1 hk with rfl | rfl
    · exact hm
    · exact hn
  · rw [heq] at h
    cases h

end Instruction

/-- A program that a file can hold. -/
def Program.Storable (p : Program) : Prop := ∀ i ∈ p.code, i.Storable

namespace Literal

/-- A finite number is written as a number lexeme, which is read as the number. -/
theorem exists_lexeme {x : Number} (h : (number x).Storable) :
    ∃ f : Json.NumberForm, f.Proper ∧ Json.ofNumber x = .number f.text ∧
      Json.numberOf? f.text = some x := by
  obtain ⟨b, hb⟩ := Option.ne_none_iff_exists'.1 h
  have hlexeme : Json.lexemeOf? x = some (Json.written.write b).toList := by
    rw [Json.lexemeOf?, hb]
    rfl
  obtain ⟨f, proper, htext⟩ := Json.exists_form hlexeme
  refine ⟨f, proper, ?_, ?_⟩
  · rw [Json.ofNumber, hlexeme, htext]
  · rw [htext]
    exact Json.numberOf?_of_lexemeOf? hlexeme

theorem lexed_toJson {l : Literal} (h : l.Storable) : (l.toJson .ofNumber).Lexed := by
  cases l with
  | number x =>
    obtain ⟨f, proper, htree, -⟩ := exists_lexeme h
    refine Json.lexed_ofVariant ?_
    rw [htree]
    exact .number proper
  | bool b => exact Json.lexed_ofVariant (.bool b)
  | text s => exact Json.lexed_ofVariant (Json.lexed_ofText s)
  | null => exact Json.lexed_ofText _
  | undefined => exact Json.lexed_ofText _

/-- A written literal is read back. -/
theorem ofJson?_toJson {l : Literal} (h : l.Storable) (limit : Nat) :
    ofJson? (limit + 1) (l.toJson .ofNumber) = some l := by
  cases l with
  | number x =>
    obtain ⟨f, -, htree, hvalue⟩ := exists_lexeme h
    rw [toJson, htree]
    unfold ofJson?
    rw [Json.plain?_ofVariant Json.noConfusion, Json.variant?_ofVariant]
    exact congrArg (Option.map number) hvalue
  | bool b =>
    rw [toJson]
    unfold ofJson?
    rw [Json.plain?_ofVariant Json.noConfusion, Json.variant?_ofVariant]
    rfl
  | text s =>
    rw [toJson]
    unfold ofJson?
    rw [Json.plain?_ofVariant Json.noConfusion, Json.variant?_ofVariant]
    exact congrArg (Option.map text) (Json.text?_ofText s)
  | null =>
    rw [toJson]
    unfold ofJson?
    rw [Json.plain?_ofText]
    rfl
  | undefined =>
    rw [toJson]
    unfold ofJson?
    rw [Json.plain?_ofText]
    rfl

end Literal

theorem Position.ofJson?_toJson {p : Position} (hframe : p.frame < Json.naturalLimit)
    (hslot : p.slot < Json.naturalLimit) (limit : Nat) : ofJson? (limit + 1) p.toJson = some p := by
  rw [ofJson?, toJson, Json.naturalRecord₂?_ofFields (by decide) hframe hslot]
  rfl

theorem UnaryOp.ofJson?_fileName (op : UnaryOp) (limit : Nat) :
    ofJson? limit (.ofText op.fileName) = some op := by
  rw [ofJson?, Json.plain?_ofText]
  cases op <;> rfl

theorem BinaryOp.ofJson?_fileName (op : BinaryOp) (limit : Nat) :
    ofJson? limit (.ofText op.fileName) = some op := by
  rw [ofJson?, Json.plain?_ofText]
  cases op <;> rfl

namespace Instruction

theorem lexed_toJson {i : Instruction} (h : i.Storable) : (i.toJson .ofNumber).Lexed := by
  have hpair : ∀ {first second : String} (m n : Nat),
      (Json.ofFields [(first, .ofNat m), (second, .ofNat n)]).Lexed := fun m n =>
    Json.lexed_ofFields fun x hx => by
      rcases List.mem_pair.1 hx with rfl | rfl
      · exact Json.lexed_ofNat m
      · exact Json.lexed_ofNat n
  have hsingle : ∀ {name : String} (n : Nat), (Json.ofFields [(name, .ofNat n)]).Lexed := fun n =>
    Json.lexed_ofVariant (Json.lexed_ofNat n)
  cases i with
  | constant l => exact Json.lexed_ofVariant (Literal.lexed_toJson (h.literal l rfl))
  | load p => exact Json.lexed_ofVariant (hpair _ _)
  | store p => exact Json.lexed_ofVariant (hpair _ _)
  | closure arity entry => exact Json.lexed_ofVariant (hpair _ _)
  | unary op => exact Json.lexed_ofVariant (Json.lexed_ofText _)
  | binary op => exact Json.lexed_ofVariant (Json.lexed_ofText _)
  | loopEnd next => exact Json.lexed_ofVariant (hsingle _)
  | newChannel capacity => exact Json.lexed_ofVariant (hsingle _)
  | call n => exact Json.lexed_ofVariant (Json.lexed_ofNat _)
  | tailCall n => exact Json.lexed_ofVariant (Json.lexed_ofNat _)
  | enterScope n => exact Json.lexed_ofVariant (Json.lexed_ofNat _)
  | jumpUnless target => exact Json.lexed_ofVariant (Json.lexed_ofNat _)
  | jump target => exact Json.lexed_ofVariant (Json.lexed_ofNat _)
  | spawn n => exact Json.lexed_ofVariant (Json.lexed_ofNat _)
  | ret | exitScope | pop | breakLoop | continueLoop | endThread | send | receive | newWaitGroup
  | groupAdd | groupDone | groupWait | halt => exact Json.lexed_ofText _

/-- An instruction with operands is read by its name. -/
theorem ofJson?_ofVariant {content : Json} (h : content ≠ .null) (limit : Nat) (name : String) :
    ofJson? (limit + 1) (.ofVariant name content) = ofContent? limit content name := by
  unfold ofJson?
  rw [Json.plain?_ofVariant h, Json.variant?_ofVariant]
  rfl

/-- An instruction without operands is read by its name. -/
theorem ofJson?_ofText {name : String} {i : Instruction} (h : ofName? name = some i) (limit : Nat) :
    ofJson? limit (.ofText name) = some i := by
  unfold ofJson?
  rw [Json.plain?_ofText, Option.bind_some, h]

section

variable {limit : Nat} {name : String}

/-- An instruction of one natural number is read back. -/
theorem ofJson?_natural {n : Nat} {make : Nat → Instruction} (hn : n < Json.naturalLimit)
    (hname : ∀ content, ofContent? limit content name = content.natural?.map make) :
    ofJson? (limit + 1) (.ofVariant name (.ofNat n)) = some (make n) := by
  rw [ofJson?_ofVariant Json.noConfusion, hname, Json.natural?_ofNat hn, Option.map_some]

/-- An instruction of a record of one natural number is read back. -/
theorem ofJson?_naturalRecord {field : String} {n : Nat} {make : Nat → Instruction}
    (hn : n < Json.naturalLimit)
    (hname : ∀ content, ofContent? (limit + 1) content name =
      (content.naturalRecord? field (limit + 1)).map make) :
    ofJson? (limit + 2) (.ofVariant name (.ofFields [(field, .ofNat n)])) = some (make n) := by
  rw [ofJson?_ofVariant Json.noConfusion, hname, Json.naturalRecord?_ofFields hn, Option.map_some]

/-- An instruction of a position is read back. -/
theorem ofJson?_position {p : Position} {make : Position → Instruction}
    (hframe : p.frame < Json.naturalLimit) (hslot : p.slot < Json.naturalLimit)
    (hname : ∀ content, ofContent? (limit + 1) content name =
      (Position.ofJson? (limit + 1) content).map make) :
    ofJson? (limit + 2) (.ofVariant name p.toJson) = some (make p) := by
  rw [ofJson?_ofVariant Json.noConfusion, hname, Position.ofJson?_toJson hframe hslot, Option.map_some]

end

/-- A written instruction is read back. -/
theorem ofJson?_toJson {i : Instruction} (h : i.Storable) (limit : Nat) :
    ofJson? (limit + 3) (i.toJson .ofNumber) = some i := by
  have hone : ∀ {n : Nat}, i.operands = [n] → n < Json.naturalLimit := fun heq =>
    h.operands _ (by rw [heq]; exact List.mem_singleton_self _)
  have htwo : ∀ {m n : Nat}, i.operands = [m, n] → m < Json.naturalLimit ∧ n < Json.naturalLimit :=
    fun heq => ⟨h.operands _ (by rw [heq]; exact List.mem_cons_self ..),
      h.operands _ (by rw [heq]; exact List.mem_cons_of_mem _ (List.mem_singleton_self _))⟩
  cases i with
  | constant l =>
    have hne : l.toJson .ofNumber ≠ .null := by
      cases l <;> exact Json.noConfusion
    exact (ofJson?_ofVariant hne _ _).trans
      (congrArg (Option.map constant) (Literal.ofJson?_toJson (h.literal l rfl) _))
  | load p => exact ofJson?_position (htwo rfl).1 (htwo rfl).2 fun _ => rfl
  | store p => exact ofJson?_position (htwo rfl).1 (htwo rfl).2 fun _ => rfl
  | closure arity entry =>
    have hne : "arity" ≠ "addr" := by decide
    exact (ofJson?_ofVariant Json.noConfusion _ _).trans
      (congrArg (Option.map fun x : Nat × Nat => closure x.1 x.2)
        (Json.naturalRecord₂?_ofFields hne (htwo rfl).1 (htwo rfl).2))
  | unary op =>
    exact (ofJson?_ofVariant Json.noConfusion _ _).trans
      (congrArg (Option.map unary) (op.ofJson?_fileName _))
  | binary op =>
    exact (ofJson?_ofVariant Json.noConfusion _ _).trans
      (congrArg (Option.map binary) (op.ofJson?_fileName _))
  | loopEnd next => exact ofJson?_naturalRecord (hone rfl) fun _ => rfl
  | newChannel capacity => exact ofJson?_naturalRecord (hone rfl) fun _ => rfl
  | call n => exact ofJson?_natural (hone rfl) fun _ => rfl
  | tailCall n => exact ofJson?_natural (hone rfl) fun _ => rfl
  | enterScope n => exact ofJson?_natural (hone rfl) fun _ => rfl
  | jumpUnless target => exact ofJson?_natural (hone rfl) fun _ => rfl
  | jump target => exact ofJson?_natural (hone rfl) fun _ => rfl
  | spawn n => exact ofJson?_natural (hone rfl) fun _ => rfl
  | ret | exitScope | pop | breakLoop | continueLoop | endThread | send | receive | newWaitGroup
  | groupAdd | groupDone | groupWait | halt => exact ofJson?_ofText rfl _

end Instruction

/-! ## Programs -/

namespace Program

theorem lexed_toJson {p : Program} (h : p.Storable) : (p.toJson .ofNumber).Lexed := by
  refine Json.lexed_ofVariant (.array fun j hj => ?_)
  obtain ⟨i, hi, rfl⟩ := List.mem_map.1 hj
  exact Instruction.lexed_toJson (h i (Array.mem_toList_iff.1 hi))

/-- A written program is read back if the limit leaves room for its literals. -/
theorem ofJson?_toJson {p : Program} (h : p.Storable) (limit : Nat) :
    ofJson? (limit + 5) (p.toJson .ofNumber) = some p := by
  have hrecord : (p.toJson .ofNumber).record? ["ops"] =
      some [some (.array (p.code.toList.map (·.toJson .ofNumber)))] :=
    Json.record?_ofFields [("ops", _)] (List.nodup_singleton _)
  have hcode : (p.code.toList.map (·.toJson .ofNumber)).mapM (Instruction.ofJson? (limit + 3)) =
      some (p.code.toList.map id) :=
    Json.mapM_map_of_forall fun i hi => Instruction.ofJson?_toJson (h i (Array.mem_toList_iff.1 hi)) limit
  unfold ofJson?
  rw [hrecord]
  change ((p.code.toList.map (·.toJson .ofNumber)).mapM (Instruction.ofJson? (limit + 3))).map
    (fun code => (⟨code.toArray⟩ : Program)) = some p
  rw [hcode, List.map_id, Option.map_some, Array.toArray_toList]

/-- The text of a program file is read as the program, also with a line break behind it. -/
theorem ofText?_append {p : Program} (h : p.Storable) {blanks : List Char}
    (hblanks : ∀ c ∈ blanks, Json.isBlank c = true) :
    ofText? (p.fileText ++ .ofList blanks) = some p := by
  rw [ofText?, fileText, Json.parse?_pretty (lexed_toJson h) hblanks, Option.bind_some]
  exact ofJson?_toJson h 122

end Program

end ChannelMachine
