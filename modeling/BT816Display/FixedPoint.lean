import BT816Display.Lib.Decimal
import BT816Display.Lib.Traced

/-!
# Fixed-point values on the display

mnemo_draw_text_var and print_ai_value split a value by the powers of ten of
its precision and print both parts side by side. The co-processor expands
the format as printf does.
-/

namespace BT816Display.FixedPoint

open Decimal

/-- PRECISION_TYPE. -/
inductive Precision where
  /-- PR0. -/
  | pr0
  /-- PR1. -/
  | pr1
  /-- PR2. -/
  | pr2
  /-- PR3. -/
  | pr3
  deriving DecidableEq

/-- The digits behind the point. -/
def Precision.digits : Precision → ℕ
  | .pr0 => 0
  | .pr1 => 1
  | .pr2 => 2
  | .pr3 => 3

/-- The byte of a configuration, cut to PR3. -/
def Precision.ofByte (b : UInt8) : Precision :=
  if b=0 then .pr0 else if b=1 then .pr1 else if b=2 then .pr2 else .pr3

/-- A drawing command of bt816_cmd.c, with the text behind its pointer. -/
inductive Command where
  /-- bt816_cmd_dl. -/
  | dl (command : UInt32)
  /-- bt816_cmd_setbitmap. -/
  | setbitmap (addr : UInt32) (fmt width height : UInt16)
  /-- bt816_cmd_setfont2. -/
  | setfont2 (font ptr firstchar : UInt32)
  /-- bt816_cmd_fgcolor. -/
  | fgcolor (color : UInt32)
  /-- bt816_cmd_button. -/
  | button (xc0 yc0 width height font : Int16) (options : UInt16) (text : List Char)
  /-- bt816_cmd_text. -/
  | text (xc0 yc0 font : Int16) (options : UInt16) (text : List UInt8)
  /-- bt816_cmd_text_var. -/
  | textVar (xc0 yc0 font : Int16) (options : UInt16) (format : List Char)
      (arguments : List Int32)
  /-- bt816_mem_read32, whose result is not looked at. -/
  | memRead32 (addr : UInt32)

/-- A drawing routine on mnemo_buf. -/
abbrev Draw := Traced ℕ Command

/-- OPT_FORMAT. -/
abbrev optFormat : UInt16 := 4096

/-- The format of an integer. -/
abbrev wholeFormat : List Char := ['%','d']

/-- The format of an integer and a fraction of one digit. -/
abbrev tenthsFormat : List Char := ['%','d','.','%','1','d']

/-- The format of an integer and a fraction of two digits. -/
abbrev hundredthsFormat : List Char := ['%','d','.','%','2','d']

/-- The format of an integer and a fraction of three digits. -/
abbrev thousandthsFormat : List Char := ['%','d','.','%','3','d']

/-- The switch over the precision at the end of mnemo_draw_text_var. -/
def drawValue (xPos yPos : UInt16) (font : UInt8) (precision : Precision) (value : Int32) :
    Draw Unit :=
  let textVar format arguments :=
    Traced.issue (.textVar xPos.toInt16 yPos.toInt16 font.toUInt16.toInt16 optFormat format
      arguments)
  match precision with
  | .pr0 => textVar wholeFormat [value]
  | .pr1 => textVar tenthsFormat [value/10,value%10]
  | .pr2 => textVar hundredthsFormat [value/100,value%100]
  | .pr3 => textVar thousandthsFormat [value/1000,value%1000]

/-- print_ai_value on the converted product fl_res*1000. -/
def printAiValue (x y : UInt16) (font : UInt8) (value : Int32) : Draw Unit :=
  Traced.issue (.textVar x.toInt16 y.toInt16 font.toUInt16.toInt16 optFormat thousandthsFormat
    [value/1000,value%1000])

/-- The text that a command shows when its format is expanded. -/
def Command.shown : Command → Option (List Char)
  | .textVar _ _ _ _ format arguments => some (printf format (arguments.map Int32.toInt))
  | _ => none

/-- The formatted texts that a routine shows. -/
def shownTexts (x : Draw Unit) : List (List Char) := x.commands.filterMap Command.shown

/-- The values that are shown right: with tenths, those without a sign or
without a fraction; with more digits, those without a sign whose fraction has
no leading zero. -/
def ShownRight (value : ℤ) : Precision → Prop
  | .pr0 => True
  | .pr1 => 0≤value ∨ value%10=0
  | .pr2 => 0≤value ∧ 10≤value%100
  | .pr3 => 0≤value ∧ 100≤value%1000

/-- The number that a fixed-point value stands for. -/
def fixedValue (value : Int32) (precision : Precision) : ℚ :=
  (value.toInt : ℚ)/10^precision.digits

/-- The condition on the remainder, in terms of the value. -/
theorem remainder_iff (v : ℤ) (precision : Precision) (hd : 0<precision.digits) :
    0≤v.tmod (10^precision.digits) ∧ (precision.digits=1 ∨
        10^(precision.digits-1)≤(v.tmod (10^precision.digits)).natAbs) ↔
      ShownRight v precision := by
  rcases le_or_gt 0 v with hv|hv
  · rw [Int.tmod_eq_emod_of_nonneg hv]
    cases precision with
    | pr0 => exact absurd hd (lt_irrefl 0)
    | pr1 =>
      simp [Precision.digits,ShownRight,hv]
      omega
    | pr2 =>
      simp [Precision.digits,ShownRight,hv]
      omega
    | pr3 =>
      simp [Precision.digits,ShownRight,hv]
      omega
  · have hneg : v.tmod (10^precision.digits)= -((-v)%10^precision.digits) := by
      rw [← Int.tmod_eq_emod_of_nonneg (by omega : 0 ≤ -v),Int.neg_tmod,neg_neg]
    rw [hneg]
    cases precision with
    | pr0 => exact absurd hd (lt_irrefl 0)
    | pr1 =>
      simp only [Precision.digits,ShownRight,pow_one,true_or,and_true]
      omega
    | pr2 =>
      simp only [Precision.digits,ShownRight]
      omega
    | pr3 =>
      simp only [Precision.digits,ShownRight]
      omega

/-- Both parts of a value, printed with a point between them. -/
theorem denote_parts_iff (value : Int32) (precision : Precision) (hd : 0<precision.digits) :
    denote (printD (value.toInt.tdiv (10^precision.digits))++ '.'::
        printWidth precision.digits (value.toInt.tmod (10^precision.digits)))=
      some (fixedValue value precision) ↔ ShownRight value.toInt precision :=
  (denote_fixed_iff hd value.toInt).trans (remainder_iff value.toInt precision hd)

/-- The expansion of a format with a fraction of `w` digits. -/
theorem printf_fraction (c : Char) (w : ℕ) (hc : c≠ 'd') (hw : c.toNat-48=w) (a b : ℤ) :
    printf ['%','d','.','%',c,'d'] [a,b]=printD a++ '.'::printWidth w b := by
  simp [printf,hw]

/-- The command with the two parts of a value shows the text of `denote_parts_iff`. -/
theorem shown_parts (xc0 yc0 font : Int16) (options : UInt16) (value k : Int32) (c : Char)
    (precision : Precision) (hc : c≠ 'd') (hw : c.toNat-48=precision.digits) (h1 : k≠ -1)
    (hk : k.toInt=10^precision.digits) :
    (Command.textVar xc0 yc0 font options ['%','d','.','%',c,'d'] [value/k,value%k]).shown=
      some (printD (value.toInt.tdiv (10^precision.digits))++ '.'::
        printWidth precision.digits (value.toInt.tmod (10^precision.digits))) := by
  rw [Command.shown,List.map_cons,List.map_cons,List.map_nil,
    printf_fraction c precision.digits hc hw,Int32.toInt_div_of_ne_right value k h1,
    Int32.toInt_mod,hk]

theorem shownTexts_issue {command : Command} {text : List Char} (h : command.shown=some text) :
    shownTexts (Traced.issue command)=[text] := by
  rw [shownTexts,Traced.issue_commands,List.filterMap_cons_some h,List.filterMap_nil]

/-- The text of a value denotes it exactly when the value is one of those shown right. -/
theorem drawValue_shown (xPos yPos : UInt16) (font : UInt8) (precision : Precision)
    (value : Int32) :
    ∃ text,shownTexts (drawValue xPos yPos font precision value)=[text] ∧
      (denote text=some (fixedValue value precision) ↔ ShownRight value.toInt precision) := by
  cases precision with
  | pr0 =>
    refine ⟨printD value.toInt,by simp [shownTexts,drawValue,Command.shown,printf],?_⟩
    rw [denote_printD,fixedValue]
    simp [Precision.digits,ShownRight]
  | pr1 =>
    refine ⟨_,?_,denote_parts_iff value .pr1 (by decide)⟩
    exact shownTexts_issue
      (shown_parts _ _ _ _ value 10 '1' .pr1 (by decide) rfl (by decide) rfl)
  | pr2 =>
    refine ⟨_,?_,denote_parts_iff value .pr2 (by decide)⟩
    exact shownTexts_issue
      (shown_parts _ _ _ _ value 100 '2' .pr2 (by decide) rfl (by decide) rfl)
  | pr3 =>
    refine ⟨_,?_,denote_parts_iff value .pr3 (by decide)⟩
    exact shownTexts_issue
      (shown_parts _ _ _ _ value 1000 '3' .pr3 (by decide) rfl (by decide) rfl)

/-- print_ai_value shows what the drawing of thousandths shows. -/
theorem printAiValue_eq (x y : UInt16) (font : UInt8) (value : Int32) :
    printAiValue x y font value=drawValue x y font .pr3 value := rfl

/-- Both displays of a fixed-point value show a text for it that denotes the
value exactly when it is one of those shown right. -/
theorem display_denotes_iff (x y : UInt16) (font : UInt8) (value : Int32) :
    (∀ precision,∃ text,shownTexts (drawValue x y font precision value)=[text] ∧
      (denote text=some (fixedValue value precision) ↔ ShownRight value.toInt precision)) ∧
    ∃ text,shownTexts (printAiValue x y font value)=[text] ∧
      (denote text=some (fixedValue value .pr3) ↔ ShownRight value.toInt .pr3) :=
  ⟨fun precision => drawValue_shown x y font precision value,
    printAiValue_eq x y font value ▸ drawValue_shown x y font .pr3 value⟩

/-- The value 1005 with three digits is shown as 1, a point, two blanks and 5. -/
theorem not_all_denoted : ¬∀ x y font precision value,
    ∃ text,shownTexts (drawValue x y font precision value)=[text] ∧
      denote text=some (fixedValue value precision) := by
  intro h
  obtain ⟨text,hshown,hdenote⟩ := h 0 0 1 .pr3 1005
  obtain ⟨text',hshown',hiff⟩ := drawValue_shown 0 0 1 .pr3 1005
  obtain rfl : text=text' := by
    rw [hshown] at hshown'
    exact (List.cons.inj hshown').1
  exact absurd (hiff.mp hdenote) fun hright => absurd hright.2 (by decide)

end BT816Display.FixedPoint
