import ChannelMachine.Json.Printer
import ChannelMachine.Proofs.Json.Numerals
import ChannelMachine.Proofs.Json.Strings

/-!
# Written trees are read back

A tree is `Lexed` if its lexemes are those of numbers and texts.  The indented text of such a tree is
read as the tree, whatever stands behind it (`ReadsBack`), because no value starts with a blank or a
closing bracket and what follows one never goes on with a number.  Twice the length of a text is enough
for the counter of the reader.
-/

namespace ChannelMachine.Json

/-- All number and string lexemes of a tree have a value. -/
inductive Lexed : Json → Prop where
  /-- No lexeme. -/
  | null : Lexed .null
  /-- No lexeme. -/
  | bool (b : Bool) : Lexed (.bool b)
  /-- A number lexeme. -/
  | number {f : NumberForm} (proper : f.Proper) : Lexed (.number f.text)
  /-- The lexeme of a text. -/
  | string (text : List Char) : Lexed (.string (escape text))
  /-- The lexemes of the items. -/
  | array {items : List Json} (lexed : ∀ j ∈ items, Lexed j) : Lexed (.array items)
  /-- The names and the lexemes of the fields. -/
  | object {fields : List (List Char × Json)} (names : ∀ x ∈ fields, ∃ text, escape text = x.1)
      (lexed : ∀ x ∈ fields, Lexed x.2) : Lexed (.object fields)

/-! ## Blanks -/

theorem skipBlanks_append {blanks : List Char} (h : ∀ c ∈ blanks, isBlank c = true)
    (cs : List Char) : skipBlanks (blanks ++ cs) = skipBlanks cs :=
  List.dropWhile_append_of_pos h

theorem skipBlanks_of_head {cs : List Char} (h : ∀ c, cs.head? = some c → isBlank c = false) :
    skipBlanks cs = cs := by
  cases cs with
  | nil => rfl
  | cons c cs => rw [skipBlanks, List.dropWhile_cons, h c rfl]; rfl

theorem isBlank_of_mem_newLine {level : Nat} {c : Char} (h : c ∈ newLine level) :
    isBlank c = true := by
  rcases List.mem_cons.1 h with rfl | hmem
  · rfl
  · rw [List.eq_of_mem_replicate hmem]
    rfl

theorem skipBlanks_newLine (level : Nat) (cs : List Char) :
    skipBlanks (newLine level ++ cs) = skipBlanks cs :=
  skipBlanks_append (fun _ => isBlank_of_mem_newLine) cs

/-- A reader of a value passes over the blanks in front of it. -/
theorem value?_congr {cs cs' : List Char} (h : skipBlanks cs = skipBlanks cs') (n : Nat) :
    value? n cs = value? n cs' := by
  cases n with
  | zero => rw [value?, value?]
  | succ n => rw [value?, value?, h]

theorem ends_newLine (level : Nat) (cs : List Char) : Ends (newLine level ++ cs) := by
  intro c h
  obtain rfl := Option.some.inj h
  decide

theorem ends_comma (cs : List Char) : Ends (',' :: cs) := by
  intro c h
  obtain rfl := Option.some.inj h
  decide

/-! ## First characters -/

/-- How a value starts: not with a blank, and not with the bracket that ends an array. -/
def Starts (cs : List Char) : Prop := ∃ c rest, cs = c :: rest ∧ isBlank c = false ∧ c ≠ ']'

theorem Starts.append {cs : List Char} (h : Starts cs) (rest : List Char) : Starts (cs ++ rest) := by
  obtain ⟨c, cs, rfl, hc⟩ := h
  exact ⟨c, cs ++ rest, rfl, hc⟩

theorem Starts.skipBlanks {cs : List Char} (h : Starts cs) : skipBlanks cs = cs := by
  obtain ⟨c, cs, rfl, hc, -⟩ := h
  refine skipBlanks_of_head fun c' hc' => ?_
  obtain rfl := Option.some.inj hc'
  exact hc

/-- A number starts with a digit or a minus sign. -/
theorem NumberForm.head_text {f : NumberForm} (proper : f.Proper) :
    ∃ c rest, f.text = c :: rest ∧ (isDigit c = true ∨ c = '-') := by
  unfold text
  cases f.negative with
  | true => exact ⟨'-', _, rfl, .inr rfl⟩
  | false =>
    obtain ⟨hdigits, hne⟩ := proper.whole
    obtain ⟨c, cs, hcons⟩ := List.exists_cons_of_ne_nil hne
    rw [hcons]
    exact ⟨c, _, rfl, .inl (hdigits c (by rw [hcons]; exact List.mem_cons_self ..))⟩

theorem ne_of_isDigit_or {c : Char} (h : isDigit c = true ∨ c = '-') {d : Char}
    (hd : isDigit d = false) (hminus : d ≠ '-') : c ≠ d := by
  rintro rfl
  rcases h with hdigit | rfl
  · rw [hdigit] at hd
    cases hd
  · exact hminus rfl

theorem starts_prettyAt {j : Json} (h : j.Lexed) (level : Nat) : Starts (prettyAt level j) := by
  cases h with
  | null => exact ⟨_, _, prettyAt.eq_1 level, by decide⟩
  | bool b => cases b <;> exact ⟨_, _, rfl, by decide⟩
  | number proper =>
    obtain ⟨c, cs, heq, hc⟩ := NumberForm.head_text proper
    refine ⟨c, cs, ?_, ?_, ne_of_isDigit_or hc rfl (by decide)⟩
    · rw [prettyAt, heq]
    · have hne := fun d hd hminus => ne_of_isDigit_or hc (d := d) hd hminus
      rw [isBlank, decide_eq_false (hne ' ' rfl (by decide)), decide_eq_false (hne '\n' rfl (by decide)),
        decide_eq_false (hne '\t' rfl (by decide)), decide_eq_false (hne '\r' rfl (by decide))]
      rfl
  | string text => exact ⟨_, _, rfl, by decide⟩
  | @array items => cases items <;> exact ⟨_, _, rfl, by decide⟩
  | @object fields => cases fields <;> exact ⟨_, _, rfl, by decide⟩

/-! ## Reading -/

/-- The text of a value is read as the value. -/
def ReadsBack (j : Json) : Prop :=
  ∀ {level n : Nat} {rest : List Char}, Ends rest → 2 * (prettyAt level j).length ≤ n →
    value? n (prettyAt level j ++ rest) = some (j, rest)

theorem length_prettyAt_pos {j : Json} (h : j.Lexed) (level : Nat) : 0 < (prettyAt level j).length := by
  obtain ⟨c, rest, heq, -⟩ := starts_prettyAt h level
  rw [heq]
  exact Nat.succ_pos _

/-- No other value starts as a number does. -/
theorem value?_number {f : NumberForm} (proper : f.Proper) {rest : List Char} (hrest : Ends rest)
    (n : Nat) : value? (n + 1) (f.text ++ rest) = some (.number f.text, rest) := by
  have hskip : skipBlanks (f.text ++ rest) = f.text ++ rest :=
    ((starts_prettyAt (.number proper) 0).append rest).skipBlanks
  obtain ⟨c, cs, heq, hc⟩ := NumberForm.head_text proper
  have hne : ∀ {d : Char} {ds : List Char}, isDigit d = false → d ≠ '-' → f.text ++ rest ≠ d :: ds := by
    intro d ds hd hminus hcons
    rw [heq, List.cons_append] at hcons
    exact ne_of_isDigit_or hc hd hminus (List.cons.inj hcons).1
  rw [value?, hskip]
  split
  next hcons => exact absurd hcons (hne rfl (by decide))
  next hcons => exact absurd hcons (hne rfl (by decide))
  next hcons => exact absurd hcons (hne rfl (by decide))
  next hcons => exact absurd hcons (hne rfl (by decide))
  next hcons => exact absurd hcons (hne rfl (by decide))
  next hcons => exact absurd hcons (hne rfl (by decide))
  next =>
    rw [NumberForm.number?_text proper hrest]

/-- A reader of items passes over the blanks in front of them. -/
theorem itemsOnto?_newLine (level n : Nat) (read : List Json) (cs : List Char) :
    itemsOnto? n read (newLine level ++ cs) = itemsOnto? n read cs := by
  cases n with
  | zero => rw [itemsOnto?, itemsOnto?]
  | succ n => rw [itemsOnto?, itemsOnto?, value?_congr (skipBlanks_newLine level cs)]

/-- The items of an array are read up to the bracket. -/
theorem itemsOnto?_pretty (level : Nat) {n : Nat} {j : Json} {items : List Json}
    (read : List Json) (rest : List Char) (hitem : ReadsBack j) (hitems : ∀ j ∈ items, ReadsBack j)
    (hn : 2 * ((prettyAt (level + 1) j).length + (prettyItems (level + 1) items).length) < n) :
    itemsOnto? n read (prettyAt (level + 1) j ++
      (prettyItems (level + 1) items ++ (newLine level ++ ']' :: rest))) =
      some (.array (read.reverse ++ j :: items), rest) := by
  induction items generalizing j read n with
  | nil =>
    obtain ⟨n, rfl⟩ := Nat.exists_eq_succ_of_ne_zero (Nat.ne_of_gt (Nat.zero_lt_of_lt hn))
    rw [prettyItems, List.nil_append, itemsOnto?, hitem (ends_newLine _ _) (by omega)]
    dsimp only
    rw [skipBlanks_newLine, skipBlanks_of_head (by simp [isBlank])]
    simp
  | cons k items ih =>
    obtain ⟨n, rfl⟩ := Nat.exists_eq_succ_of_ne_zero (Nat.ne_of_gt (Nat.zero_lt_of_lt hn))
    obtain ⟨hk, hitems⟩ := List.forall_mem_cons.1 hitems
    rw [prettyItems, List.length_append, List.length_append, List.length_cons] at hn
    rw [prettyItems, List.append_assoc, List.append_assoc, List.cons_append, itemsOnto?,
      hitem (ends_comma _) (by omega)]
    dsimp only
    rw [skipBlanks_of_head (by simp [isBlank])]
    change itemsOnto? n (j :: read) _ = _
    rw [itemsOnto?_newLine, ih _ hk hitems (by omega), List.reverse_cons, List.append_assoc]
    rfl

/-- A reader of fields passes over the blanks in front of them. -/
theorem fieldsOnto?_newLine (level n : Nat) (read : List (List Char × Json)) (cs : List Char) :
    fieldsOnto? n read (newLine level ++ cs) = fieldsOnto? n read cs := by
  cases n with
  | zero => rw [fieldsOnto?, fieldsOnto?]
  | succ n => rw [fieldsOnto?, fieldsOnto?, skipBlanks_newLine]

theorem fieldsOnto?_quote (n : Nat) (read : List (List Char × Json)) (cs : List Char) :
    fieldsOnto? (n + 1) read ('"' :: cs) =
      match stringOnto? [] cs with
      | none => none
      | some (key, rest) =>
          match skipBlanks rest with
          | ':' :: rest =>
              match value? n rest with
              | none => none
              | some (content, rest) =>
                  match skipBlanks rest with
                  | ',' :: rest => fieldsOnto? n ((key, content) :: read) rest
                  | '\x7d' :: rest => some (.object ((key, content) :: read).reverse, rest)
                  | _ => none
          | _ => none := by
  rw [fieldsOnto?]
  rfl

/-- The name of a field is read up to the colon. -/
theorem fieldsOnto?_name (n : Nat) (read : List (List Char × Json)) (name cs : List Char) :
    fieldsOnto? (n + 1) read (quoted (escape name) ++ ':' :: cs) =
      match value? n cs with
      | none => none
      | some (content, rest) =>
          match skipBlanks rest with
          | ',' :: rest => fieldsOnto? n ((escape name, content) :: read) rest
          | '\x7d' :: rest => some (.object ((escape name, content) :: read).reverse, rest)
          | _ => none := by
  rw [quoted, List.cons_append, List.cons_append, List.append_assoc, List.cons_append,
    List.nil_append, fieldsOnto?_quote, stringOnto?_escape]
  rfl

/-- One field is read, and then what follows it decides. -/
theorem fieldsOnto?_field {level n : Nat} {j : Json} {rest : List Char} (hcontent : ReadsBack j)
    (hrest : Ends rest) (hn : 2 * (prettyAt level j).length ≤ n) (name : List Char)
    (read : List (List Char × Json)) :
    fieldsOnto? (n + 1) read (quoted (escape name) ++ ':' :: ' ' :: (prettyAt level j ++ rest)) =
      match skipBlanks rest with
      | ',' :: rest => fieldsOnto? n ((escape name, j) :: read) rest
      | '\x7d' :: rest => some (.object ((escape name, j) :: read).reverse, rest)
      | _ => none := by
  have hskip : skipBlanks (' ' :: (prettyAt level j ++ rest)) = skipBlanks (prettyAt level j ++ rest) :=
    rfl
  simp only [fieldsOnto?_name, value?_congr hskip, hcontent hrest hn]

/-- The fields of an object are read up to the brace. -/
theorem fieldsOnto?_pretty {level n : Nat} {name : List Char} (j : Json)
    {fields : List (List Char × Json)} (read : List (List Char × Json)) {rest : List Char}
    (hcontent : ReadsBack j)
    (hfields : ∀ x ∈ fields, ReadsBack x.2 ∧ ∃ text, escape text = x.1)
    (hn : 2 * ((prettyAt (level + 1) j).length + (prettyFields (level + 1) fields).length) < n) :
    fieldsOnto? n read (quoted (escape name) ++ ':' :: ' ' :: (prettyAt (level + 1) j ++
      (prettyFields (level + 1) fields ++ (newLine level ++ '\x7d' :: rest)))) =
      some (.object (read.reverse ++ (escape name, j) :: fields), rest) := by
  induction fields generalizing name j read n with
  | nil =>
    obtain ⟨n, rfl⟩ := Nat.exists_eq_succ_of_ne_zero (Nat.ne_of_gt (Nat.zero_lt_of_lt hn))
    rw [prettyFields, List.nil_append, fieldsOnto?_field hcontent (ends_newLine _ _) (by omega),
      skipBlanks_newLine, skipBlanks_of_head (by simp [isBlank])]
    simp
  | cons x fields ih =>
    obtain ⟨n, rfl⟩ := Nat.exists_eq_succ_of_ne_zero (Nat.ne_of_gt (Nat.zero_lt_of_lt hn))
    obtain ⟨key, content⟩ := x
    obtain ⟨⟨hx, text, rfl⟩, hrest⟩ := List.forall_mem_cons.1 hfields
    rw [prettyFields] at hn ⊢
    simp only [List.length_append, List.length_cons] at hn
    simp only [List.append_assoc, List.cons_append, List.nil_append]
    rw [fieldsOnto?_field hcontent (ends_comma _) (by omega), skipBlanks_of_head (by simp [isBlank])]
    change fieldsOnto? n ((escape name, j) :: read) _ = _
    rw [fieldsOnto?_newLine, ih content _ hx hrest (by omega), List.reverse_cons, List.append_assoc]
    rfl

theorem value?_quote (n : Nat) (cs : List Char) :
    value? (n + 1) ('"' :: cs) =
      match stringOnto? [] cs with
      | some (lexeme, rest) => some (.string lexeme, rest)
      | none => none := by
  rw [value?]
  rfl

theorem value?_bracket (n : Nat) (cs : List Char) :
    value? (n + 1) ('[' :: cs) =
      match skipBlanks cs with
      | ']' :: rest => some (.array [], rest)
      | rest => itemsOnto? n [] rest := by
  rw [value?]
  rfl

theorem value?_brace (n : Nat) (cs : List Char) :
    value? (n + 1) ('\x7b' :: cs) =
      match skipBlanks cs with
      | '\x7d' :: rest => some (.object [], rest)
      | rest => fieldsOnto? n [] rest := by
  rw [value?]
  rfl

theorem readsBack_string (text : List Char) : ReadsBack (.string (escape text)) := by
  intro level n rest _ hn
  obtain ⟨n, rfl⟩ := Nat.exists_eq_succ_of_ne_zero (show n ≠ 0 by rintro rfl; cases hn)
  simp only [prettyAt, quoted, List.cons_append, List.append_assoc, List.nil_append, value?_quote,
    stringOnto?_escape]

theorem readsBack_array {items : List Json} (lexed : ∀ j ∈ items, j.Lexed)
    (hitems : ∀ j ∈ items, ReadsBack j) : ReadsBack (.array items) := by
  intro level n rest _ hn
  obtain ⟨n, rfl⟩ := Nat.exists_eq_succ_of_ne_zero (show n ≠ 0 by
    rintro rfl
    have := length_prettyAt_pos (.array lexed) level
    omega)
  cases items with
  | nil => rfl
  | cons j items =>
    obtain ⟨hj, hrest⟩ := List.forall_mem_cons.1 hitems
    have hstarts := starts_prettyAt (List.forall_mem_cons.1 lexed).1 (level + 1)
    rw [prettyAt] at hn ⊢
    simp only [List.length_append, List.length_cons] at hn
    simp only [List.append_assoc, List.cons_append, List.nil_append]
    rw [value?_bracket, skipBlanks_newLine, (hstarts.append _).skipBlanks]
    obtain ⟨c, cs, hcons, -, hne⟩ := hstarts
    have hitems := itemsOnto?_pretty level (n := n) [] rest hj hrest (by omega)
    rw [hcons] at hitems ⊢
    split
    next heq => exact absurd (List.cons.inj heq).1 hne
    next => exact hitems

theorem readsBack_object {fields : List (List Char × Json)}
    (names : ∀ x ∈ fields, ∃ text, escape text = x.1) (hfields : ∀ x ∈ fields, ReadsBack x.2) :
    ReadsBack (.object fields) := by
  intro level n rest _ hn
  cases fields with
  | nil =>
    obtain ⟨n, rfl⟩ := Nat.exists_eq_succ_of_ne_zero (show n ≠ 0 by rintro rfl; cases hn)
    rfl
  | cons x fields =>
    obtain ⟨key, content⟩ := x
    obtain ⟨⟨text, rfl⟩, hnames⟩ := List.forall_mem_cons.1 names
    obtain ⟨hcontent, hrest⟩ := List.forall_mem_cons.1 hfields
    rw [prettyAt] at hn ⊢
    simp only [List.length_append, List.length_cons] at hn
    simp only [List.append_assoc, List.cons_append, List.nil_append]
    obtain ⟨n, rfl⟩ := Nat.exists_eq_succ_of_ne_zero (show n ≠ 0 by omega)
    rw [value?_brace, skipBlanks_newLine]
    exact fieldsOnto?_pretty content [] hcontent
      (fun x hx => ⟨hrest x hx, hnames x hx⟩) (by omega)

/-- A lexed tree is read back. -/
theorem Lexed.readsBack {j : Json} (h : j.Lexed) : ReadsBack j := by
  induction h with
  | null =>
    intro level n rest _ hn
    obtain ⟨n, rfl⟩ := Nat.exists_eq_succ_of_ne_zero (show n ≠ 0 by rintro rfl; cases hn)
    rfl
  | bool b =>
    intro level n rest _ hn
    cases b with
    | true =>
      obtain ⟨n, rfl⟩ := Nat.exists_eq_succ_of_ne_zero (show n ≠ 0 by rintro rfl; cases hn)
      rfl
    | false =>
      obtain ⟨n, rfl⟩ := Nat.exists_eq_succ_of_ne_zero (show n ≠ 0 by rintro rfl; cases hn)
      rfl
  | number proper =>
    intro level n rest hrest hn
    have hpos := length_prettyAt_pos (.number proper) level
    obtain ⟨n, rfl⟩ := Nat.exists_eq_succ_of_ne_zero (show n ≠ 0 by omega)
    exact value?_number proper hrest n
  | string text => exact readsBack_string text
  | array lexed ih => exact readsBack_array lexed ih
  | object names lexed ih => exact readsBack_object names ih

/-- The indented text of a lexed tree is a text of the tree, also with a line break behind it. -/
theorem parse?_pretty {j : Json} (h : j.Lexed) {blanks : List Char}
    (hblanks : ∀ c ∈ blanks, isBlank c = true) :
    parse? (j.pretty ++ .ofList blanks) = some j := by
  have htext : (j.pretty ++ .ofList blanks).toList = prettyAt 0 j ++ blanks := by
    rw [String.toList_append, pretty, String.toList_ofList, String.toList_ofList]
  have hends : Ends blanks := by
    intro c hc
    have hblank := hblanks c (List.mem_of_head? hc)
    simp only [isBlank, Bool.or_eq_true, decide_eq_true_eq] at hblank
    rcases hblank with ((rfl | rfl) | rfl) | rfl <;> decide
  have hskip : skipBlanks blanks = [] := by
    rw [← List.append_nil blanks]
    exact skipBlanks_append hblanks []
  rw [parse?, htext, h.readsBack hends (by rw [List.length_append]; omega)]
  dsimp only
  rw [hskip]
  rfl

end ChannelMachine.Json
