import HookLint.Json.Printer
import Mathlib.Data.List.Basic

/-!
# Proofs.Json.OneLine — a value in the style of a log is one line

A text is a line if no control character stands in it.  Lines compose: a text that is put together
from lines is a line (`IsLine.append`).  Inside of quotes every control character is written as an
escape (`isLine_quote`), and outside of them stand digits, words and punctuation, so a value without
line breaks of the layout is a line whatever its strings hold (`isLine_write`).

Dates and unusual numbers are printed as they are; a value is `Serializable` if these are lines.
-/

namespace HookLint.Json

/-- No control character stands in the text. -/
def IsLine (s : String) : Prop := ∀ c ∈ s.toList, 0x20 ≤ c.toNat

instance (s : String) : Decidable (IsLine s) :=
  List.decidableBAll (fun c : Char => 0x20 ≤ c.toNat) s.toList

section Texts

variable {s t : String}

theorem IsLine.append (hs : IsLine s) (ht : IsLine t) : IsLine (s ++ t) := by
  intro c hc
  rw [String.toList_append] at hc
  rcases List.mem_append.mp hc with hc | hc
  · exact hs c hc
  · exact ht c hc

theorem isLine_ofList {cs : List Char} (h : ∀ c ∈ cs, 0x20 ≤ c.toNat) :
    IsLine (String.ofList cs) := by
  intro c hc
  rw [String.toList_ofList] at hc
  exact h c hc

/-! ### Quotes -/

theorem le_hexDigit (n : Nat) : 0x20 ≤ (hexDigit n).toNat := by
  have hdigits : ∀ i < 16, 0x20 ≤ ("0123456789abcdef".toList.getD i '0').toNat := by decide
  exact hdigits (n % 16) (Nat.mod_lt n (by decide))

theorem le_of_mem_unitEscape {n : Nat} {c : Char} (h : c ∈ unitEscape n) : 0x20 ≤ c.toNat := by
  simp only [unitEscape, List.mem_cons, List.not_mem_nil, or_false] at h
  rcases h with rfl | rfl | rfl | rfl | rfl | rfl
  · decide
  · decide
  · exact le_hexDigit _
  · exact le_hexDigit _
  · exact le_hexDigit _
  · exact le_hexDigit _

theorem le_of_mem_letterEscape {letter d : Char} (hletter : 0x20 ≤ letter.toNat)
    (h : d ∈ ['\\', letter]) : 0x20 ≤ d.toNat := by
  rcases List.mem_cons.mp h with rfl | h
  · decide
  · rw [List.mem_singleton.mp h]
    exact hletter

/-- A control character is escaped, any other one is no control character. -/
theorem le_of_mem_escapeChar {ascii : Bool} {c d : Char} (h : d ∈ escapeChar ascii c) :
    0x20 ≤ d.toNat := by
  unfold escapeChar at h
  split at h
  -- the characters with a letter of their own
  · exact le_of_mem_letterEscape (by decide) h
  · exact le_of_mem_letterEscape (by decide) h
  · exact le_of_mem_letterEscape (by decide) h
  · exact le_of_mem_letterEscape (by decide) h
  · exact le_of_mem_letterEscape (by decide) h
  · exact le_of_mem_letterEscape (by decide) h
  · exact le_of_mem_letterEscape (by decide) h
  · dsimp only at h
    split at h
    · exact le_of_mem_unitEscape h
    · next hn =>
      split at h
      · split at h
        · exact le_of_mem_unitEscape h
        · rcases List.mem_append.mp h with h | h
          · exact le_of_mem_unitEscape h
          · exact le_of_mem_unitEscape h
      · rw [List.mem_singleton.mp h]
        omega

theorem isLine_quote (ascii : Bool) (s : String) : IsLine (quote ascii s) := by
  refine isLine_ofList fun c hc => ?_
  rcases List.mem_cons.mp hc with rfl | hc
  · decide
  · rcases List.mem_append.mp hc with hc | hc
    · obtain ⟨d, -, hc⟩ := List.mem_flatMap.mp hc
      exact le_of_mem_escapeChar hc
    · rw [List.mem_singleton.mp hc]
      decide

/-! ### Numbers -/

theorem isLine_repr (n : Nat) : IsLine n.repr := by
  intro c hc
  rw [Nat.toList_repr] at hc
  have hdigit := Char.isDigit_iff_toNat.mp
    (Nat.isDigit_of_mem_toDigits (by decide) (by decide) hc)
  exact Nat.le_trans (by decide) hdigit.1

theorem isLine_toString (n : Int) : IsLine (toString n) := by
  cases n with
  | ofNat n => exact isLine_repr n
  | negSucc n => exact IsLine.append (by decide) (isLine_repr (n + 1))

end Texts

/-! ### Values -/

/-- A value that can be written on a line. -/
inductive Serializable : Value → Prop where
  | null : Serializable .null
  | bool (b : Bool) : Serializable (.bool b)
  | int (n : Int) : Serializable (.int n)
  | decimal (digits exponent : Int) : Serializable (.decimal digits exponent)
  | mark {text : String} (h : IsLine text) : Serializable (.mark text)
  | string (s : String) : Serializable (.string s)
  | array {items : List Value} (h : ∀ v ∈ items, Serializable v) : Serializable (.array items)
  | object {members : List (String × Value)} (h : ∀ m ∈ members, Serializable m.2) :
      Serializable (.object members)

theorem isLine_divider (depth : Nat) : IsLine (divider Style.line.indent depth) := by
  show IsLine ", "
  decide

theorem isLine_lineBreak (depth : Nat) : IsLine (lineBreak Style.line.indent depth) := by
  show IsLine ""
  decide

theorem isLine_writeItems {depth : Nat} {items : List Value}
    (h : ∀ v ∈ items, IsLine (write .line depth v)) : IsLine (writeItems .line depth items) := by
  induction items with
  | nil =>
    rw [writeItems]
    decide
  | cons v items ih =>
    obtain ⟨hv, hitems⟩ := List.forall_mem_cons.mp h
    rw [writeItems]
    exact ((isLine_divider depth).append hv).append (ih hitems)

/-- A member without what divides it from others. -/
theorem isLine_member (name : String) {text : String} (h : IsLine text) :
    IsLine (quote Style.line.ascii name ++ ": " ++ text) :=
  ((isLine_quote _ name).append (by decide)).append h

theorem isLine_writeMembers {depth : Nat} {members : List (String × Value)}
    (h : ∀ m ∈ members, IsLine (write .line depth m.2)) :
    IsLine (writeMembers .line depth members) := by
  induction members with
  | nil =>
    rw [writeMembers]
    decide
  | cons m members ih =>
    obtain ⟨hm, hmembers⟩ := List.forall_mem_cons.mp h
    have htext := ((isLine_divider depth).append (isLine_member m.1 hm)).append (ih hmembers)
    rw [writeMembers]
    simpa only [String.append_assoc] using htext

/-- **A value in the style of a log is one line.** -/
theorem isLine_write {v : Value} (h : Serializable v) (depth : Nat) :
    IsLine (write .line depth v) := by
  induction h generalizing depth with
  | null =>
    rw [write]
    decide
  | bool b =>
    rw [write]
    cases b <;> decide
  | int n =>
    rw [write]
    exact isLine_toString n
  | decimal digits exponent =>
    rw [write]
    exact ((isLine_toString digits).append (by decide)).append (isLine_toString exponent)
  | mark h =>
    rw [write]
    exact h
  | string s =>
    rw [write]
    exact isLine_quote _ s
  | @array items _ ih =>
    cases items with
    | nil =>
      rw [write]
      decide
    | cons v items =>
      obtain ⟨hv, hitems⟩ := List.forall_mem_cons.mp ih
      have hopen : IsLine ("[" ++ lineBreak Style.line.indent (depth + 1)) :=
        (by decide : IsLine "[").append (isLine_lineBreak _)
      have hrow := (hopen.append (hv (depth + 1))).append
        (isLine_writeItems fun w hw => hitems w hw (depth + 1))
      rw [write]
      exact (hrow.append (isLine_lineBreak depth)).append (by decide)
  | @object members _ ih =>
    cases members with
    | nil =>
      rw [write]
      decide
    | cons m members =>
      obtain ⟨hm, hmembers⟩ := List.forall_mem_cons.mp ih
      have hopen : IsLine ("\x7b" ++ lineBreak Style.line.indent (depth + 1)) :=
        (by decide : IsLine "\x7b").append (isLine_lineBreak _)
      have hrow := (hopen.append (isLine_member m.1 (hm (depth + 1)))).append
        (isLine_writeMembers fun w hw => hmembers w hw (depth + 1))
      have htext := (hrow.append (isLine_lineBreak depth)).append (by decide : IsLine "\x7d")
      rw [write]
      simpa only [String.append_assoc] using htext

theorem isLine_render {v : Value} (h : Serializable v) : IsLine (render .line v) :=
  isLine_write h 0

end HookLint.Json
