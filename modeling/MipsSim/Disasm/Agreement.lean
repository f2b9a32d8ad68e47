import MipsSim.Disasm.Basic
import MipsSim.Pipeline.Stages
import Mathlib.Tactic.IntervalCases

/-!
# Disassembler and pipeline

The disassembler and the decoder read the same words through different tables. For every word it is
decided whether what is printed names what the pipeline does with the word.
-/

namespace MipsSim

open Run

/-! ### What the pipeline does -/

/-- The name of an `OPCODE_*` constant that selects an operation by itself. -/
def Opcode.name : Opcode → Option String
  | .j => some "J"
  | .jal => some "JAL"
  | .beq => some "BEQ"
  | .bne => some "BNE"
  | .addi => some "ADDI"
  | .addiu => some "ADDIU"
  | .slti => some "SLTI"
  | .sltiu => some "SLTIU"
  | .andi => some "ANDI"
  | .ori => some "ORI"
  | .lui => some "LUI"
  | .lwl => some "LWL"
  | .lw => some "LW"
  | .lbu => some "LBU"
  | .lhu => some "LHU"
  | .lwr => some "LWR"
  | .ll => some "LL"
  | .sw => some "SW"
  | .sb => some "SB"
  | .sc => some "SC"
  | .sh => some "SH"
  | .swr => some "SWR"
  | .swl => some "SWL"
  | .r | .cp0 | .unknown _ => none

/-- The name of a `FUNCT_*` constant. -/
def Funct.name : Funct → Option String
  | .jr => some "JR"
  | .syscall => some "SYSCALL"
  | .add => some "ADD"
  | .addu => some "ADDU"
  | .sub => some "SUB"
  | .subu => some "SUBU"
  | .and => some "AND"
  | .or => some "OR"
  | .nor => some "NOR"
  | .slt => some "SLT"
  | .sltu => some "SLTU"
  | .sll => some "SLL"
  | .srl => some "SRL"
  | .unknown _ => none

/-- The name of a `CP0_*` constant. -/
def Cp0Funct.name : Cp0Funct → Option String
  | .mfc0 => some "MFC0"
  | .mtc0 => some "MTC0"
  | .unknown _ => none

/-- The operation that the pipeline performs for the word, by the constants it is compared with;
`none` for a word that the pipeline does not implement. -/
def operationName (inst : Word) : Option String :=
  match getOpcode inst with
  | .r => (getFunct inst).name
  | .cp0 => (getCp0Funct inst).name
  | op => op.name

/-- The CP0 register that a move reads or writes in the pipeline. -/
def cp0Accessed (inst : Word) : ℕ := if isMfc0 inst then rsOf inst else rdOf inst

/-! ### What is printed -/

/-- The mnemonic on a line. -/
def Line.mnemonic : Line → Option String
  | .rType mnemonic .. | .jType mnemonic _ | .iType mnemonic .. => some mnemonic
  | .cp0 _ function .. => some function
  | .unknown _ => none

/-- The CP0 register on a line. -/
def Line.cp0Reg : Line → Option Operand
  | .cp0 _ _ _ rd => some rd
  | _ => none

/-- The jump target on a line. -/
def Line.target : Line → Option Word
  | .jType _ target => some target
  | _ => none

/-- The line for the word says what the pipeline does with it. -/
structure Agrees (inst : Word) (core : Core) : Prop where
  /-- No table is read behind its end. -/
  in_tables : ∃ line, disassemble inst core = .ok line
  mnemonic : ∀ line name, disassemble inst core = .ok line → operationName inst = some name →
    line.mnemonic = some name
  cp0 : ∀ line, disassemble inst core = .ok line → isCp0Move inst →
    ∃ name, cp0RegNames[cp0Accessed inst]? = some name ∧
      line.cp0Reg = some ⟨name, core.cp0 (cp0Accessed inst)⟩
  /-- Two jumps with the same printed target jump to the same address from the same place. -/
  target : ∀ line, disassemble inst core = .ok line → getOpcode inst = .j ∨ getOpcode inst = .jal →
    ∀ inst' line', getOpcode inst' = getOpcode inst → disassemble inst' core = .ok line' →
      line'.target = line.target → ∀ c : Core, jumpRead c inst' = jumpRead c inst

/-- The words that are printed right. The names of `SWL` and `SWR` are swapped against the opcode
constants, `LL` is not known, the target of a jump is cut to 16 bits, CP0 registers are printed one
number too low, and of the CP0 functions only five have a name. -/
def Printable (inst : Word) : Prop :=
  match getOpcode inst with
  | .j | .jal | .swl | .swr | .ll => False
  | .cp0 => 1 ≤ getRs inst ∧ getRs inst ≤ 3
  | _ => True

instance (inst : Word) : Decidable (Printable inst) := by
  unfold Printable
  split <;> infer_instance

/-! ### The tables -/

lemma opcodeField_lt (inst : Word) : opcodeField inst < 64 := by
  have h := inst.isLt
  rw [opcodeField, BitVec.toNat_ushiftRight, Nat.shiftRight_eq_div_pow]
  omega

lemma functField_lt (inst : Word) : functField inst < 64 := by
  rw [functField, BitVec.toNat_and]
  exact Nat.and_lt_two_pow _ (show 0x3F < 2 ^ 6 by decide)

lemma nameAt_eq_ok {table : List String} {i : ℕ} {name : String} :
    nameAt table i = .ok name ↔ table[i]? = some name := by
  unfold nameAt
  cases table[i]? <;> simp

lemma nameAt_of_lt (table : List String) {i : ℕ} (h : i < table.length) :
    ∃ name, nameAt table i = .ok name :=
  ⟨table[i], nameAt_eq_ok.mpr (List.getElem?_eq_getElem h)⟩

/-- The table of opcodes has the name of every constant but those of `SWL` and `SWR`. -/
lemma opCodes_name {n : ℕ} (hn : n < 64) (h : n ≠ 0x2A ∧ n ≠ 0x2E) {name : String}
    (hname : (Opcode.ofCode n).name = some name) : opCodes[n]? = some name := by
  have htable : ∀ n < 64, n ≠ 0x2A ∧ n ≠ 0x2E → (Opcode.ofCode n).name = none ∨
      opCodes[n]? = (Opcode.ofCode n).name := by decide
  rcases htable n hn h with hnone | heq
  · rw [hnone] at hname
    cases hname
  · rw [heq, hname]

lemma functCodes_name {n : ℕ} (hn : n < 64) {name : String}
    (hname : (Funct.ofCode n).name = some name) : functCodes[n]? = some name := by
  have htable : ∀ n < 64, (Funct.ofCode n).name = none ∨ functCodes[n]? = (Funct.ofCode n).name := by
    decide
  rcases htable n hn with hnone | heq
  · rw [hnone] at hname
    cases hname
  · rw [heq, hname]

/-- No CP0 register shares its name with the next one. -/
lemma cp0RegNames_succ_ne {n : ℕ} (hn : n < 32) : cp0RegNames[n + 1]? ≠ cp0RegNames[n]? := by
  have htable : ∀ n < 32, cp0RegNames[n + 1]? ≠ cp0RegNames[n]? := by decide
  exact htable n hn

/-! ### The formats -/

section Formats

variable (core : Core)

lemma gprOperand_eq_ok {i : ℕ} (h : i < 32) : ∃ x, gprOperand core i = .ok x := by
  obtain ⟨name, hname⟩ := nameAt_of_lt regNames (i := i) (h.trans (by decide))
  exact ⟨⟨name, core.regs i⟩, by rw [gprOperand, hname]; rfl⟩

lemma cp0Operand_eq_ok {i : ℕ} (h : i < 32) :
    ∃ name, cp0RegNames[i]? = some name ∧ cp0Operand core i = .ok ⟨name, core.cp0 i⟩ := by
  obtain ⟨name, hname⟩ := nameAt_of_lt cp0RegNames (i := i) (h.trans (by decide))
  exact ⟨name, nameAt_eq_ok.mp hname, by rw [cp0Operand, hname]; rfl⟩

variable {inst : Word}

/-- The opcodes that are printed in the immediate format. -/
def iFormat : List Opcode :=
  [.beq, .bne, .addi, .addiu, .slti, .sltiu, .andi, .ori, .lui, .sb, .sc, .sh, .lbu, .lhu, .lw, .sw,
    .swl, .swr, .lwr, .lwl]

lemma disassemble_rType (h : getOpcode inst = .r) :
    ∃ name rs rt rd, functCodes[functField inst]? = some name ∧
      disassemble inst core = .ok (.rType name rs rt rd (BitVec.ofNat 32 (getShamt inst))) := by
  obtain ⟨name, hname⟩ := nameAt_of_lt functCodes (functField_lt inst)
  obtain ⟨rs, hrs⟩ := gprOperand_eq_ok core (field5_lt inst 21)
  obtain ⟨rt, hrt⟩ := gprOperand_eq_ok core (field5_lt inst 16)
  obtain ⟨rd, hrd⟩ := gprOperand_eq_ok core (field5_lt inst 11)
  refine ⟨name, rs, rt, rd, nameAt_eq_ok.mp hname, ?_⟩
  simp only [disassemble, h, bind_eq_ok, pure_eq_ok]
  exact ⟨name, hname, rs, hrs, rt, hrt, rd, hrd, rfl⟩

lemma disassemble_jType (h : getOpcode inst = .j ∨ getOpcode inst = .jal) :
    ∃ name, disassemble inst core = .ok (.jType name (getImm inst)) := by
  obtain ⟨name, hname⟩ := nameAt_of_lt opCodes (opcodeField_lt inst)
  refine ⟨name, ?_⟩
  rcases h with h | h <;> simp only [disassemble, h, bind_eq_ok, pure_eq_ok] <;>
    exact ⟨name, hname, rfl⟩

lemma disassemble_iType (h : getOpcode inst ∈ iFormat) :
    ∃ name rs rt, opCodes[opcodeField inst]? = some name ∧
      disassemble inst core = .ok (.iType name rs rt (getImm inst)) := by
  obtain ⟨name, hname⟩ := nameAt_of_lt opCodes (opcodeField_lt inst)
  obtain ⟨rs, hrs⟩ := gprOperand_eq_ok core (field5_lt inst 21)
  obtain ⟨rt, hrt⟩ := gprOperand_eq_ok core (field5_lt inst 16)
  refine ⟨name, rs, rt, nameAt_eq_ok.mp hname, ?_⟩
  cases hop : getOpcode inst <;> simp [hop, iFormat] at h
  all_goals
    simp only [disassemble, hop, bind_eq_ok, pure_eq_ok]
    exact ⟨name, hname, rs, hrs, rt, hrt, rfl⟩

/-- A CP0 instruction is printed when its function has an entry in the table, with the CP0 register
of the number in the word. -/
lemma disassemble_cp0 (h : getOpcode inst = .cp0) {line : Line} :
    disassemble inst core = .ok line ↔
      ∃ coprocessor function rt name, opCodes[opcodeField inst]? = some coprocessor ∧
        cp0Codes[getRs inst]? = some function ∧ cp0RegNames[getRd inst]? = some name ∧
        gprOperand core (getRt inst) = .ok rt ∧
        line = .cp0 coprocessor function rt ⟨name, core.cp0 (getRd inst)⟩ := by
  obtain ⟨name, hname, hrd⟩ := cp0Operand_eq_ok core (field5_lt inst 11)
  simp only [disassemble, h, bind_eq_ok, pure_eq_ok, nameAt_eq_ok]
  constructor
  · rintro ⟨coprocessor, hco, function, hfun, rt, hrt, rd, hrd', rfl⟩
    obtain rfl : rd = ⟨name, core.cp0 (getRd inst)⟩ := Except.ok.inj (hrd'.symm.trans hrd)
    exact ⟨coprocessor, function, rt, name, hco, hfun, hname, hrt, rfl⟩
  · rintro ⟨coprocessor, function, rt, name', hco, hfun, hname', hrt, rfl⟩
    obtain rfl : name = name' := Option.some.inj (hname.symm.trans hname')
    exact ⟨coprocessor, hco, function, hfun, rt, hrt, _, hrd, rfl⟩

lemma disassemble_unknown (h : getOpcode inst = .ll ∨ ∃ code, getOpcode inst = .unknown code) :
    disassemble inst core = .ok (.unknown inst) := by
  rcases h with h | ⟨code, h⟩ <;> simp only [disassemble, h] <;> rfl

end Formats

/-! ### Words that are printed wrong -/

section Wrong

variable {inst : Word} {core : Core}

lemma opcodeField_of_swl (h : getOpcode inst = .swl) : opcodeField inst = 0x2E := by
  have htable : ∀ n < 64, Opcode.ofCode n = .swl → n = 0x2E := by decide
  exact htable _ (opcodeField_lt inst) h

lemma opcodeField_of_swr (h : getOpcode inst = .swr) : opcodeField inst = 0x2A := by
  have htable : ∀ n < 64, Opcode.ofCode n = .swr → n = 0x2A := by decide
  exact htable _ (opcodeField_lt inst) h

lemma not_agrees_of_swl (h : getOpcode inst = .swl) : ¬ Agrees inst core := by
  intro hag
  obtain ⟨name, rs, rt, hname, hline⟩ := @disassemble_iType core inst (by rw [h]; decide)
  have hbad := hag.mnemonic _ "SWL" hline (by rw [operationName, h]; rfl)
  rw [opcodeField_of_swl h] at hname
  rw [Line.mnemonic, ← hname] at hbad
  exact absurd hbad (by decide)

lemma not_agrees_of_swr (h : getOpcode inst = .swr) : ¬ Agrees inst core := by
  intro hag
  obtain ⟨name, rs, rt, hname, hline⟩ := @disassemble_iType core inst (by rw [h]; decide)
  have hbad := hag.mnemonic _ "SWR" hline (by rw [operationName, h]; rfl)
  rw [opcodeField_of_swr h] at hname
  rw [Line.mnemonic, ← hname] at hbad
  exact absurd hbad (by decide)

lemma not_agrees_of_ll (h : getOpcode inst = .ll) : ¬ Agrees inst core := by
  intro hag
  have hbad := hag.mnemonic _ "LL" (disassemble_unknown core (.inl h)) (by rw [operationName, h]; rfl)
  cases hbad

/-- The printed target of a jump does not show the bits 16 to 25 of the word. -/
lemma not_agrees_of_jump (h : getOpcode inst = .j ∨ getOpcode inst = .jal) : ¬ Agrees inst core := by
  intro hag
  have hop : getOpcode (inst ^^^ 0x10000#32) = getOpcode inst := by
    rw [getOpcode, getOpcode, BitVec.ushiftRight_xor_distrib]
    simp
  have himm : getImm (inst ^^^ 0x10000#32) = getImm inst := by
    ext i hi
    simp only [getImm, BitVec.getElem_and, BitVec.getElem_xor]
    interval_cases i <;> simp
  obtain ⟨name, hline⟩ := disassemble_jType core h
  obtain ⟨name', hline'⟩ := @disassemble_jType core (inst ^^^ 0x10000#32) (by rwa [hop])
  have hsame := hag.target _ hline h _ _ hop hline' (by rw [Line.target, Line.target, himm]) core
  have hbit := congrArg (·.getLsbD 18) hsame
  rw [jumpRead, jumpRead, if_pos (by rwa [hop]), if_pos h] at hbit
  simp [getAddress] at hbit

/-- A move is printed with the register before the one that it accesses. -/
lemma not_agrees_of_isCp0Move (h : isCp0Move inst) : ¬ Agrees inst core := by
  intro hag
  have hop : getOpcode inst = .cp0 := by
    rcases h with h | h <;> exact h.1
  have hacc : cp0Accessed inst = getRd inst + 1 := by
    unfold cp0Accessed
    split_ifs with hf
    · exact if_pos hf
    · have ht : isMtc0 inst := h.resolve_left hf
      rw [rdOf, if_neg hf, if_pos ht]
  obtain ⟨line, hline⟩ := hag.in_tables
  obtain ⟨name, hname, hreg⟩ := hag.cp0 line hline h
  obtain ⟨_, _, _, name', -, -, hname', -, rfl⟩ := (disassemble_cp0 core hop).mp hline
  simp only [Line.cp0Reg, Option.some.injEq, Operand.mk.injEq] at hreg
  rw [hacc] at hname
  refine cp0RegNames_succ_ne (field5_lt inst 11) ?_
  rw [← getRd, hname, hname', hreg.1]

end Wrong

/-! ### Agreement -/

section Right

variable {inst : Word} {core : Core}

lemma getRs_of_cp0 (h : getOpcode inst = .cp0) (hag : Agrees inst core) :
    1 ≤ getRs inst ∧ getRs inst ≤ 3 := by
  obtain ⟨line, hline⟩ := hag.in_tables
  obtain ⟨_, function, _, _, -, hfun, -⟩ := (disassemble_cp0 core h).mp hline
  obtain ⟨hlt, -⟩ := List.getElem?_eq_some_iff.mp hfun
  have hlt' : getRs inst < 5 := hlt
  have hne : ∀ {f : Cp0Funct}, f = .mfc0 ∨ f = .mtc0 → Cp0Funct.ofCode (getRs inst) ≠ f := by
    rintro f (rfl | rfl) heq
    · exact not_agrees_of_isCp0Move (.inl ⟨h, heq⟩) hag
    · exact not_agrees_of_isCp0Move (.inr ⟨h, heq⟩) hag
  have h0 : getRs inst ≠ 0 := fun hz => hne (.inl rfl) (by rw [hz]; rfl)
  have h4 : getRs inst ≠ 4 := fun hz => hne (.inr rfl) (by rw [hz]; rfl)
  omega

/-- A word whose line has the right mnemonic agrees if it is neither a jump nor a move. -/
lemma agrees_of_line {line : Line} (hline : disassemble inst core = .ok line)
    (hname : ∀ name, operationName inst = some name → line.mnemonic = some name)
    (hmove : ¬ isCp0Move inst) (hjump : ¬ (getOpcode inst = .j ∨ getOpcode inst = .jal)) :
    Agrees inst core where
  in_tables := ⟨line, hline⟩
  mnemonic := by
    intro line' name hline' hop
    obtain rfl : line = line' := Except.ok.inj (hline.symm.trans hline')
    exact hname name hop
  cp0 := fun _ _ h => absurd h hmove
  target := fun _ _ h => absurd h hjump

lemma not_isCp0Move_of_ne (h : getOpcode inst ≠ .cp0) : ¬ isCp0Move inst := by
  rintro (hf | ht)
  · exact h hf.1
  · exact h ht.1

lemma agrees_rType (h : getOpcode inst = .r) : Agrees inst core := by
  obtain ⟨name, rs, rt, rd, hname, hline⟩ := disassemble_rType core h
  refine agrees_of_line hline ?_ (not_isCp0Move_of_ne (by simp [h])) (by simp [h])
  intro name' hop
  rw [operationName, h] at hop
  rw [Line.mnemonic, ← hname]
  exact functCodes_name (functField_lt inst) hop

lemma agrees_iType (h : getOpcode inst ∈ iFormat) (hswl : getOpcode inst ≠ .swl)
    (hswr : getOpcode inst ≠ .swr) : Agrees inst core := by
  obtain ⟨name, rs, rt, hname, hline⟩ := disassemble_iType core h
  have hother : getOpcode inst ≠ .cp0 ∧ getOpcode inst ≠ .r ∧ getOpcode inst ≠ .j ∧
      getOpcode inst ≠ .jal := by
    refine ⟨?_, ?_, ?_, ?_⟩ <;> intro hop <;> rw [hop] at h <;> revert h <;> decide
  refine agrees_of_line hline ?_ (not_isCp0Move_of_ne hother.1) (by simp [hother])
  intro name' hop
  have hname' : (getOpcode inst).name = some name' := by
    rw [← hop, operationName]
    cases hcase : getOpcode inst <;> simp_all
  rw [Line.mnemonic, ← hname]
  refine opCodes_name (opcodeField_lt inst) ⟨fun hz => hswr ?_, fun hz => hswl ?_⟩ hname'
  · rw [getOpcode, ← opcodeField, hz]
    rfl
  · rw [getOpcode, ← opcodeField, hz]
    rfl

lemma agrees_cp0 (h : getOpcode inst = .cp0) (hrs : 1 ≤ getRs inst ∧ getRs inst ≤ 3) :
    Agrees inst core := by
  have hfunct : ∃ code, getCp0Funct inst = .unknown code := by
    have htable : ∀ n < 4, n ≠ 0 → Cp0Funct.ofCode n = .unknown n := by decide
    exact ⟨_, htable _ (by omega) (by omega)⟩
  obtain ⟨code, hcode⟩ := hfunct
  obtain ⟨coprocessor, hco⟩ := nameAt_of_lt opCodes (opcodeField_lt inst)
  obtain ⟨function, hfun⟩ := nameAt_of_lt cp0Codes (i := getRs inst)
    (show getRs inst < 5 by omega)
  obtain ⟨rt, hrt⟩ := gprOperand_eq_ok core (field5_lt inst 16)
  obtain ⟨name, hname, -⟩ := cp0Operand_eq_ok core (field5_lt inst 11)
  have hline := (disassemble_cp0 core h).mpr ⟨coprocessor, function, rt, name, nameAt_eq_ok.mp hco,
    nameAt_eq_ok.mp hfun, hname, hrt, rfl⟩
  refine agrees_of_line hline ?_ ?_ (by simp [h])
  · intro name' hop
    rw [operationName, h] at hop
    simp [hcode, Cp0Funct.name] at hop
  · rintro (hf | ht)
    · exact absurd (hcode.symm.trans hf.2) (by simp)
    · exact absurd (hcode.symm.trans ht.2) (by simp)

/-- For every word and every core state the line agrees with the pipeline exactly when the word is
one of those that are printed right. -/
theorem agrees_iff (inst : Word) (core : Core) : Agrees inst core ↔ Printable inst := by
  unfold Printable
  cases hop : getOpcode inst with
  | r => exact iff_of_true (agrees_rType hop) trivial
  | j => exact iff_of_false (not_agrees_of_jump (.inl hop)) id
  | jal => exact iff_of_false (not_agrees_of_jump (.inr hop)) id
  | swl => exact iff_of_false (not_agrees_of_swl hop) id
  | swr => exact iff_of_false (not_agrees_of_swr hop) id
  | ll => exact iff_of_false (not_agrees_of_ll hop) id
  | cp0 => exact ⟨getRs_of_cp0 hop, agrees_cp0 hop⟩
  | unknown code =>
    refine iff_of_true (agrees_of_line (disassemble_unknown core (.inr ⟨code, hop⟩)) ?_ ?_ ?_) trivial
    · intro name hname
      rw [operationName, hop] at hname
      cases hname
    · exact not_isCp0Move_of_ne (by simp [hop])
    · simp [hop]
  | _ =>
    refine iff_of_true (agrees_iType ?_ ?_ ?_) trivial
    · rw [hop]
      decide
    · simp [hop]
    · simp [hop]

end Right

/-- `MTC0 $8, $12` writes the status register and is printed as a move to the register before it;
`ERET` is printed with a name from behind the end of a table. -/
theorem not_agrees_mtc0 :
    disassemble 0x40886000#32 (.init (fun _ => 0) 0 (fun _ => 0)) =
        .ok (.cp0 "COP0" "MTC0" ⟨"t0", 0⟩ ⟨"Compare", 0⟩) ∧
      cp0RegNames[cp0Accessed 0x40886000#32]? = some "Status" ∧
      ¬ Agrees 0x40886000#32 (.init (fun _ => 0) 0 (fun _ => 0)) ∧
      disassemble instructionEret (.init (fun _ => 0) 0 (fun _ => 0)) = .error .outOfBounds := by
  have hline : disassemble 0x40886000#32 (.init (fun _ => 0) 0 (fun _ => 0)) =
      .ok (.cp0 "COP0" "MTC0" ⟨"t0", 0⟩ ⟨"Compare", 0⟩) := rfl
  refine ⟨hline, by decide, fun hag => ?_, rfl⟩
  obtain ⟨name, hname, hreg⟩ := hag.cp0 _ hline (by decide)
  simp only [Line.cp0Reg, Option.some.injEq, Operand.mk.injEq] at hreg
  rw [← hreg.1] at hname
  exact absurd hname (by decide)

end MipsSim
