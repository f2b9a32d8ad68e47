import MipsSim.Disasm.Agreement
import MipsSim.Lib.TextBuffer

/-!
# The disassembler's buffer

`instruction_string` prints into a buffer of its caller, in two parts. The comment at its
declaration asks whether the buffer can overflow. For a word with a name it cannot where there is
room for the instruction word, and the lines are so short that in the buffers of both callers
nothing is cut off. Elsewhere these lines are therefore taken without the buffer.
-/

namespace MipsSim

open Run TextBuffer

/-! ### Names -/

/-- The tables have a name for the word. Of the CP0 functions only the first five have one. -/
def Named (inst : Word) : Prop := getOpcode inst = .cp0 → getRs inst < cp0Codes.length

instance (inst : Word) : Decidable (Named inst) := inferInstanceAs (Decidable (_ → _))

/-- No table is read behind its end exactly for the words with a name. -/
lemma disassemble_iff_named {inst : Word} {core : Core} :
    (∃ line, disassemble inst core = .ok line) ↔ Named inst := by
  cases hop : getOpcode inst with
  | r =>
    obtain ⟨_, _, _, _, -, hline⟩ := disassemble_rType core hop
    exact iff_of_true ⟨_, hline⟩ (by simp [Named, hop])
  | j =>
    obtain ⟨_, hline⟩ := disassemble_jType core (.inl hop)
    exact iff_of_true ⟨_, hline⟩ (by simp [Named, hop])
  | jal =>
    obtain ⟨_, hline⟩ := disassemble_jType core (.inr hop)
    exact iff_of_true ⟨_, hline⟩ (by simp [Named, hop])
  | ll => exact iff_of_true ⟨_, disassemble_unknown core (.inl hop)⟩ (by simp [Named, hop])
  | unknown code =>
    exact iff_of_true ⟨_, disassemble_unknown core (.inr ⟨code, hop⟩)⟩ (by simp [Named, hop])
  | cp0 =>
    constructor
    · rintro ⟨line, hline⟩ -
      obtain ⟨_, _, _, _, -, hfunction, -⟩ := (disassemble_cp0 core hop).mp hline
      exact (List.getElem?_eq_some_iff.mp hfunction).1
    · intro hnamed
      obtain ⟨_, hco⟩ := nameAt_of_lt opCodes (opcodeField_lt inst)
      obtain ⟨_, hfunction⟩ := nameAt_of_lt cp0Codes (hnamed hop)
      obtain ⟨_, hrt⟩ := gprOperand_eq_ok core (field5_lt inst 16)
      obtain ⟨_, hname, -⟩ := cp0Operand_eq_ok core (field5_lt inst 11)
      exact ⟨_, (disassemble_cp0 core hop).mpr ⟨_, _, _, _, nameAt_eq_ok.mp hco,
        nameAt_eq_ok.mp hfunction, hname, hrt, rfl⟩⟩
  | _ =>
    obtain ⟨_, _, _, -, hline⟩ := @disassemble_iType core inst (by rw [hop]; decide)
    exact iff_of_true ⟨_, hline⟩ (by simp [Named, hop])

lemma instructionString_iff_named {inst : Word} {core : Core} :
    (∃ text, instructionString inst core = .ok text) ↔ Named inst := by
  rw [← @disassemble_iff_named inst core]
  constructor
  · rintro ⟨text, h⟩
    obtain ⟨line, hline, -⟩ := bind_eq_ok.mp h
    exact ⟨line, hline⟩
  · rintro ⟨line, hline⟩
    exact ⟨_, bind_eq_ok.mpr ⟨line, hline, rfl⟩⟩

/-! ### Printing to a buffer -/

/-- `INSTRUCTION_BUFFER_SIZE`. -/
def instructionBufferSize : BitVec 64 := 1024

/-- The terminator of a string. -/
def nul : Char := Char.ofNat 0

/-- `snprintf(buf + o, size, ...)` for the text that it prints. The fault is a write behind the end
of the buffer. -/
def snprintf (buf : List Char) (o size : ℕ) (text : List Char) : Except HostFault (List Char) :=
  match put buf o (printed nul size text) with
  | none => .error .outOfBounds
  | some buf => .ok buf

/-- `instruction_string` with its buffer: the number that it returns and what is in the buffer then.
What is left of the buffer is computed as a `size_t`. -/
def instructionStringTo (inst : Word) (core : Core) (buf : List Char) (bufSize : BitVec 64) :
    Except HostFault (ℕ × List Char) := do
  let word := (hex inst ++ "\t").toList
  let i := word.length
  let buf ← snprintf buf 0 bufSize.toNat word
  let line ← disassemble inst core
  let text := line.text.toList
  let buf ← snprintf buf i (bufSize - BitVec.ofNat 64 i).toNat text
  pure (i + text.length, buf)

/-! ### The length of a line -/

/-- A string of at most `n` characters, none of which is the terminator. -/
def Plain (n : ℕ) (s : String) : Prop := s.length ≤ n ∧ nul ∉ s.toList

instance (n : ℕ) (s : String) : Decidable (Plain n s) := inferInstanceAs (Decidable (_ ∧ _))

section Plain

variable {m n : ℕ} {s t : String} {inst : Word} {core : Core}

lemma Plain.append (hs : Plain m s) (ht : Plain n t) : Plain (m + n) (s ++ t) := by
  refine ⟨?_, ?_⟩
  · rw [String.length_append]
    exact Nat.add_le_add hs.1 ht.1
  · rw [String.toList_append, List.mem_append, not_or]
    exact ⟨hs.2, ht.2⟩

lemma Plain.mono (hs : Plain m s) (h : m ≤ n) : Plain n s := ⟨hs.1.trans h, hs.2⟩

lemma Plain.of_nameAt {table : List String} {i : ℕ} (htable : ∀ name ∈ table, Plain n name)
    (h : nameAt table i = .ok s) : Plain n s :=
  htable s (List.mem_of_getElem? (nameAt_eq_ok.mp h))

lemma toList_hex (w : Word) :
    (hex w).toList =
      ['0', 'x'] ++ (List.range 8).map fun i => hexDigit ((w >>> (28 - 4 * i)).toNat % 16) := by
  rw [hex, String.toList_append, show "0x".toList = ['0', 'x'] from rfl, String.toList_ofList]

lemma length_hex (w : Word) : (hex w).length = 10 := by
  rw [← String.length_toList, toList_hex, List.length_append, List.length_map, List.length_range]
  rfl

lemma plain_hex (w : Word) : Plain 10 (hex w) := by
  refine ⟨(length_hex w).le, ?_⟩
  have hdigit : ∀ n < 16, hexDigit n ≠ nul := by decide
  rw [toList_hex, List.mem_append, List.mem_map, not_or]
  refine ⟨by decide, ?_⟩
  rintro ⟨i, -, hi⟩
  exact hdigit _ (Nat.mod_lt _ (by decide)) hi

lemma plain_opCodes : ∀ name ∈ opCodes, Plain 19 name := by decide

lemma plain_functCodes : ∀ name ∈ functCodes, Plain 16 name := by decide

lemma plain_cp0Codes : ∀ name ∈ cp0Codes, Plain 7 name := by decide

lemma plain_regNames : ∀ name ∈ regNames, Plain 4 name := by decide

lemma plain_cp0RegNames : ∀ name ∈ cp0RegNames, Plain 8 name := by decide

lemma Operand.plain_text {x : Operand} (h : Plain n x.name) : Plain (n + 13) x.text :=
  (h.append (by decide : Plain 3 " = ")).append (plain_hex x.value)

lemma gprOperand_plain {i : ℕ} {x : Operand} (h : gprOperand core i = .ok x) :
    Plain 17 x.text := by
  obtain ⟨name, hname, hx⟩ := bind_eq_ok.mp h
  obtain rfl := Except.ok.inj hx
  exact Operand.plain_text (.of_nameAt plain_regNames hname)

lemma cp0Operand_plain {i : ℕ} {x : Operand} (h : cp0Operand core i = .ok x) :
    Plain 21 x.text := by
  obtain ⟨name, hname, hx⟩ := bind_eq_ok.mp h
  obtain rfl := Except.ok.inj hx
  exact Operand.plain_text (.of_nameAt plain_cp0RegNames hname)

/-- The longest lines are those of R-type instructions without a name. -/
lemma disassemble_plain {line : Line} (h : disassemble inst core = .ok line) :
    Plain 112 line.text := by
  cases hop : getOpcode inst with
  | r =>
    simp only [disassemble, hop, bind_eq_ok, pure_eq_ok] at h
    obtain ⟨name, hname, rs, hrs, rt, hrt, rd, hrd, rfl⟩ := h
    exact ((((((((Plain.of_nameAt plain_functCodes hname).append
      (by decide : Plain 7 "  rs = ")).append (gprOperand_plain hrs)).append
      (by decide : Plain 8 ",  rt = ")).append (gprOperand_plain hrt)).append
      (by decide : Plain 8 ",  rd = ")).append (gprOperand_plain hrd)).append
      (by decide : Plain 11 ",  shamt = ")).append (plain_hex _) |>.append
      (by decide : Plain 1 "\n")
  | j | jal =>
    simp only [disassemble, hop, bind_eq_ok, pure_eq_ok] at h
    obtain ⟨name, hname, rfl⟩ := h
    exact ((((Plain.of_nameAt plain_opCodes hname).append (by decide : Plain 3 "   ")).append
      (plain_hex _)).append (by decide : Plain 1 "\n")).mono (by decide)
  | ll | unknown =>
    simp only [disassemble, hop, pure_eq_ok] at h
    obtain rfl := h
    exact (((by decide : Plain 21 "Unknown instruction: ").append (plain_hex _)).append
      (by decide : Plain 1 "\n")).mono (by decide)
  | cp0 =>
    simp only [disassemble, hop, bind_eq_ok, pure_eq_ok] at h
    obtain ⟨name, hname, function, hfunction, rt, hrt, rd, hrd, rfl⟩ := h
    exact ((((((((Plain.of_nameAt plain_opCodes hname).append (by decide : Plain 2 ", ")).append
      (Plain.of_nameAt plain_cp0Codes hfunction)).append (by decide : Plain 7 "  rt = ")).append
      (gprOperand_plain hrt)).append (by decide : Plain 8 ",  rd = ")).append
      (cp0Operand_plain hrd)).append (by decide : Plain 1 "\n")).mono (by decide)
  | _ =>
    simp only [disassemble, hop, bind_eq_ok, pure_eq_ok] at h
    obtain ⟨name, hname, rs, hrs, rt, hrt, rfl⟩ := h
    exact ((((((((Plain.of_nameAt plain_opCodes hname).append
      (by decide : Plain 7 "  rs = ")).append (gprOperand_plain hrs)).append
      (by decide : Plain 8 ",  rt = ")).append (gprOperand_plain hrt)).append
      (by decide : Plain 9 ",  imm = ")).append (plain_hex _)).append
      (by decide : Plain 1 "\n")).mono (by decide)

end Plain

/-! ### What is in the buffer -/

section Buffer

variable {inst : Word} {core : Core} {buf buf' : List Char} {bufSize : BitVec 64} {n o : ℕ}

lemma snprintf_eq_ok {size : ℕ} {text : List Char} :
    snprintf buf o size text = .ok buf' ↔ put buf o (printed nul size text) = some buf' := by
  unfold snprintf
  cases put buf o (printed nul size text) <;> simp

lemma length_word (w : Word) : (hex w ++ "\t").length = 11 := by
  rw [String.length_append, length_hex]
  rfl

/-- What is left behind the instruction word, unless there was no room for it. -/
lemma toNat_left (hle : 11 ≤ bufSize.toNat) :
    (bufSize - BitVec.ofNat 64 11).toNat = bufSize.toNat - 11 :=
  BitVec.toNat_sub_of_le hle

lemma instructionStringTo_eq_ok : instructionStringTo inst core buf bufSize = .ok (n, buf') ↔
    ∃ mid line, put buf 0 (printed nul bufSize.toNat (hex inst ++ "\t").toList) = some mid ∧
      disassemble inst core = .ok line ∧
      put mid 11 (printed nul (bufSize - BitVec.ofNat 64 11).toNat line.text.toList) = some buf' ∧
      n = 11 + line.text.length := by
  simp only [instructionStringTo, bind_eq_ok, pure_eq_ok, snprintf_eq_ok, length_word,
    String.length_toList, Prod.mk.injEq]
  constructor
  · rintro ⟨mid, hmid, line, hline, buf', hbuf, rfl, rfl⟩
    exact ⟨mid, line, hmid, hline, hbuf, rfl⟩
  · rintro ⟨mid, line, hmid, hline, hbuf, rfl⟩
    exact ⟨mid, hmid, line, hline, buf', hbuf, rfl, rfl⟩

lemma length_of_instructionStringTo
    (h : instructionStringTo inst core buf bufSize = .ok (n, buf')) : buf'.length = buf.length := by
  obtain ⟨mid, line, hmid, -, hput, -⟩ := instructionStringTo_eq_ok.mp h
  rw [length_put hput, length_put hmid]

/-- With room for the instruction word the text is printed as far as it fits. -/
lemma instructionStringTo_of_le (hbuf : buf.length = bufSize.toNat) (hle : 11 ≤ bufSize.toNat)
    {line : Line} (hline : disassemble inst core = .ok line) :
    ∃ buf', instructionStringTo inst core buf bufSize = .ok (11 + line.text.length, buf') ∧
      Holds nul buf' ((hex inst ++ "\t").toList ++ line.text.toList) := by
  have hword : (hex inst ++ "\t").toList.length = 11 := by rw [String.length_toList, length_word]
  obtain ⟨mid, hmid, hholds⟩ := @exists_put _ nul buf [] (by simp) (by simp; omega)
    (hex inst ++ "\t").toList
  have hlen := length_put hmid
  obtain ⟨buf', hput, hholds'⟩ := hholds.exists_put (by simp only [List.nil_append]; omega)
    line.text.toList
  refine ⟨buf', instructionStringTo_eq_ok.mpr ⟨mid, line, ?_, hline, ?_, rfl⟩, hholds'⟩
  · rw [← hbuf]
    exact hmid
  · rw [toNat_left hle, ← hbuf, ← hlen]
    simpa only [List.nil_append, hword] using hput

/-- With room for the instruction word, the buffer holds the text of a word with a name as far as it
fits, and the number that is returned is the length of the text. -/
theorem instructionStringTo_of_named (hnamed : Named inst) (hbuf : buf.length = bufSize.toNat)
    (hle : 11 ≤ bufSize.toNat) :
    ∃ text buf', instructionString inst core = .ok text ∧ text.length ≤ 123 ∧
      instructionStringTo inst core buf bufSize = .ok (text.length, buf') ∧
      content nul buf' = text.toList.take (bufSize.toNat - 1) := by
  obtain ⟨line, hline⟩ := (@disassemble_iff_named inst core).mpr hnamed
  obtain ⟨buf', h, hholds⟩ := instructionStringTo_of_le hbuf hle hline
  have hplain := ((plain_hex inst).append (by decide : Plain 1 "\t")).append
    (disassemble_plain hline)
  have hlength : (hex inst ++ "\t" ++ line.text).length = 11 + line.text.length := by
    rw [String.length_append, length_word]
  refine ⟨_, buf', bind_eq_ok.mpr ⟨line, hline, rfl⟩, hplain.1, ?_, ?_⟩
  · rw [hlength]
    exact h
  · rw [← String.toList_append] at hholds
    rw [hholds.content_eq hplain.2, length_of_instructionStringTo h, hbuf]

/-- The buffers of `print_instruction` and of the log hold the whole text. -/
theorem content_instructionStringTo (hnamed : Named inst)
    (hbuf : buf.length = instructionBufferSize.toNat) :
    ∃ text buf', instructionString inst core = .ok text ∧
      instructionStringTo inst core buf instructionBufferSize = .ok (text.length, buf') ∧
      content nul buf' = text.toList := by
  obtain ⟨text, buf', htext, hlen, h, hcontent⟩ :=
    @instructionStringTo_of_named inst core buf instructionBufferSize hnamed hbuf (by decide)
  refine ⟨text, buf', htext, h, ?_⟩
  have hsize : instructionBufferSize.toNat - 1 = 1023 := by decide
  rw [hcontent, hsize, List.take_of_length_le]
  rw [String.length_toList]
  omega

end Buffer

end MipsSim
