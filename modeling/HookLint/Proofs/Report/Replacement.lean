import HookLint.Report.Fix
import Mathlib.Data.List.Basic

/-!
# Proofs.Report.Replacement — fixes as one replacement

Fixes are applied one after another, from the right to the left, while the text changes under
them.  The result is nevertheless that of one replacement in the original text: the spans of some of
the fixes are replaced, these spans are disjoint, and every byte outside of them stays
(`applyBytes_eq_replace`).

If the spans begin and end between characters, the result is a text again (`patch?_eq_replace`).
-/

namespace HookLint.Report.Fix

/-! ### Replacing spans at once -/

/-- The bytes from `pos` up to `stop`, where the spans of the fixes, which go from the left to the
right, are replaced. -/
def replaceBetween (data : List UInt8) (pos stop : Nat) : List Fix → List UInt8
  | [] => (data.take stop).drop pos
  | f :: fs => (data.take f.start).drop pos ++ bytesOf f.replacement ++
      replaceBetween data f.stop stop fs

/-- The bytes with the spans of the fixes replaced. -/
def replaceSpans (data : List UInt8) (fs : List Fix) : List UInt8 :=
  replaceBetween data 0 data.length fs

/-- Spans that go from the left to the right and do not overlap. -/
def Ascending (fs : List Fix) : Prop := fs.Pairwise fun a b => a.stop ≤ b.start

/-- The fixes that are applied, of those that come in the order of application. -/
def chosen (limit : Nat) : List Fix → List Fix
  | [] => []
  | f :: fs => if limit < f.stop then chosen limit fs else f :: chosen f.start fs

section Replace

variable {data : List UInt8} {limit : Nat} {f : Fix} {fs : List Fix}

/-- The last span can be replaced first. -/
theorem replaceBetween_concat (data : List UInt8) (pos stop : Nat) (fs : List Fix) (f : Fix) :
    replaceBetween data pos stop (fs ++ [f]) =
      replaceBetween data pos f.start fs ++ bytesOf f.replacement ++
        (data.take stop).drop f.stop := by
  induction fs generalizing pos with
  | nil => rfl
  | cons g fs ih =>
    rw [List.cons_append, replaceBetween, replaceBetween, ih]
    simp only [List.append_assoc]

theorem mem_of_mem_chosen (h : f ∈ chosen limit fs) : f ∈ fs := by
  induction fs generalizing limit with
  | nil => cases h
  | cons g fs ih =>
    rw [chosen] at h
    split at h
    · exact List.mem_cons_of_mem _ (ih h)
    · rcases List.mem_cons.mp h with rfl | h
      · exact List.mem_cons_self
      · exact List.mem_cons_of_mem _ (ih h)

theorem stop_le_of_mem_chosen (hspan : ∀ f ∈ fs, f.start ≤ f.stop) (h : f ∈ chosen limit fs) :
    f.stop ≤ limit := by
  induction fs generalizing limit with
  | nil => cases h
  | cons g fs ih =>
    have hg := hspan g List.mem_cons_self
    have hfs : ∀ f ∈ fs, f.start ≤ f.stop := fun f hf => hspan f (List.mem_cons_of_mem _ hf)
    rw [chosen] at h
    split at h
    · exact ih hfs h
    · rcases List.mem_cons.mp h with rfl | h
      · omega
      · have := ih hfs h
        omega

/-- Each fix that is applied ends before those applied earlier. -/
theorem ascending_chosen (hspan : ∀ f ∈ fs, f.start ≤ f.stop) :
    Ascending (chosen limit fs).reverse := by
  unfold Ascending
  rw [List.pairwise_reverse]
  induction fs generalizing limit with
  | nil => exact List.Pairwise.nil
  | cons g fs ih =>
    have hfs : ∀ f ∈ fs, f.start ≤ f.stop := fun f hf => hspan f (List.mem_cons_of_mem _ hf)
    rw [chosen]
    split
    · exact ih hfs
    · exact List.pairwise_cons.mpr ⟨fun f hf => stop_le_of_mem_chosen hfs hf, ih hfs⟩

/-- **Fixing from the right is replacing at once.**  What stands to the right of `limit` is done
with; the bytes to the left of it are still those of the original. -/
theorem applyInOrder_eq (data tail : List UInt8) (hspan : ∀ f ∈ fs, f.start ≤ f.stop)
    (hlimit : limit ≤ data.length) :
    applyInOrder (data.take limit ++ tail) limit fs =
      replaceBetween data 0 limit (chosen limit fs).reverse ++ tail := by
  induction fs generalizing limit tail with
  | nil => rfl
  | cons f fs ih =>
    have hf := hspan f List.mem_cons_self
    have hfs : ∀ f ∈ fs, f.start ≤ f.stop := fun f hf => hspan f (List.mem_cons_of_mem _ hf)
    rw [applyInOrder, chosen]
    split
    · exact ih tail hfs hlimit
    · next hstop =>
      have hlen : (data.take limit).length = limit := List.length_take_of_le hlimit
      have hsplice : splice (data.take limit ++ tail) f = data.take f.start ++
          (bytesOf f.replacement ++ ((data.take limit).drop f.stop ++ tail)) := by
        unfold splice
        rw [List.take_append_of_le_length (by omega), List.take_take, Nat.min_eq_left (by omega),
          List.drop_append_of_le_length (by omega), List.append_assoc]
      rw [hsplice, ih _ hfs (by omega), List.reverse_cons, replaceBetween_concat]
      simp only [List.append_assoc]

/-- The limit makes no difference beyond the ends of the fixes. -/
theorem applyInOrder_congr {limit' : Nat} (h : ∀ f ∈ fs, f.stop ≤ limit)
    (h' : ∀ f ∈ fs, f.stop ≤ limit') :
    applyInOrder data limit fs = applyInOrder data limit' fs := by
  cases fs with
  | nil => rfl
  | cons f fs =>
    have hf := h f List.mem_cons_self
    have hf' := h' f List.mem_cons_self
    rw [applyInOrder, applyInOrder, if_neg (by omega), if_neg (by omega)]

end Replace

/-! ### The fixes in their order -/

section Ordered

variable {fixes : List Fix} {f : Fix}

theorem mem_distinct_foldl {acc : List Fix}
    (h : f ∈ fixes.foldl (fun acc f => if acc.any f.same then acc else acc ++ [f]) acc) :
    f ∈ acc ∨ f ∈ fixes := by
  induction fixes generalizing acc with
  | nil => exact Or.inl h
  | cons g fixes ih =>
    rw [List.foldl_cons] at h
    rcases ih h with h | h
    · split at h
      · exact Or.inl h
      · rcases List.mem_append.mp h with h | h
        · exact Or.inl h
        · rw [List.mem_singleton.mp h]
          exact Or.inr List.mem_cons_self
    · exact Or.inr (List.mem_cons_of_mem _ h)

theorem mem_of_mem_ordered (h : f ∈ ordered fixes) : f ∈ fixes := by
  have hd : f ∈ distinct fixes := List.mem_mergeSort.mp h
  rcases mem_distinct_foldl hd with h | h
  · cases h
  · exact h

theorem length_le_distinct_foldl (fixes acc : List Fix) : acc.length ≤
    (fixes.foldl (fun acc f => if acc.any f.same then acc else acc ++ [f]) acc).length := by
  induction fixes generalizing acc with
  | nil => exact Nat.le_refl _
  | cons g fixes ih =>
    rw [List.foldl_cons]
    refine Nat.le_trans ?_ (ih _)
    split
    · exact Nat.le_refl _
    · rw [List.length_append]
      omega

theorem ordered_ne_nil (h : fixes ≠ []) : ordered fixes ≠ [] := by
  obtain ⟨g, rest, rfl⟩ := List.exists_cons_of_ne_nil h
  have hlen : 0 < (distinct (g :: rest)).length := length_le_distinct_foldl rest [g]
  intro hnil
  have hzero := congrArg List.length hnil
  unfold ordered at hzero
  rw [List.length_mergeSort, List.length_nil] at hzero
  omega

theorem precedes_iff {a b : Fix} : precedes a b = true ↔
    b.start < a.start ∨ a.start = b.start ∧ b.stop ≤ a.stop := by
  unfold precedes
  simp

theorem precedes_total (a b : Fix) : precedes a b = true ∨ precedes b a = true := by
  rw [precedes_iff, precedes_iff]
  omega

/-- No fix is applied before one that has to go before it. -/
theorem pairwise_ordered (fixes : List Fix) :
    (ordered fixes).Pairwise fun a b => precedes a b = true := by
  refine List.pairwise_mergeSort (fun a b c => ?_) (fun a b => ?_) _
  · simp only [precedes_iff]
    omega
  · rw [Bool.or_eq_true]
    exact precedes_total a b

/-- The order of application is known, once no fix has to come before an earlier one. -/
theorem ordered_eq {order : List Fix} (hperm : order.Perm (distinct fixes))
    (hlast : order.Pairwise fun a b => precedes b a = false) : ordered fixes = order := by
  have horder : order.Pairwise fun a b => precedes a b = true := by
    refine hlast.imp fun {a b} hba => (precedes_total a b).resolve_right ?_
    rw [hba]
    exact Bool.false_ne_true
  -- two fixes that precede each other are one
  have hanti : order.Pairwise fun a b => precedes a b = true → precedes b a = true → a = b := by
    refine hlast.imp fun {a b} hba _ h => ?_
    rw [hba] at h
    cases h
  have hmem := hanti.forall_of_forall_of_flip (fun _ _ _ _ => rfl)
    (hanti.imp fun h hba hab => (h hab hba).symm)
  have hsame : (ordered fixes).Perm order := (List.mergeSort_perm _ _).trans hperm.symm
  exact hsame.eq_of_pairwise (fun a b ha hb => hmem (hsame.subset ha) hb)
    (pairwise_ordered fixes) horder

end Ordered

/-! ### Texts -/

/-- The bytes of a text. -/
def IsText (data : List UInt8) : Prop := ByteArray.IsValidUTF8 ⟨data.toArray⟩

/-- Whether an offset of a text stands between two characters, or at an end. -/
abbrev IsBoundary (source : String) (offset : Nat) : Prop := String.Pos.Raw.IsValid source ⟨offset⟩

section Texts

variable {source : String} {fs fixes : List Fix}

theorem toList_loop (bytes : ByteArray) (i : Nat) (front : List UInt8) :
    ByteArray.toList.loop bytes i front = front.reverse ++ bytes.data.toList.drop i := by
  fun_induction ByteArray.toList.loop bytes i front with
  | case1 i front h ih =>
    have hi : i < bytes.data.toList.length := h
    have hget : bytes.get! i = bytes.data.toList[i] := getElem!_pos bytes.data i h
    rw [ih, List.drop_eq_getElem_cons hi, List.reverse_cons, List.append_assoc, hget]
    rfl
  | case2 i front h =>
    have hi : bytes.data.toList.length ≤ i := Nat.le_of_not_lt h
    rw [List.drop_eq_nil_of_le hi, List.append_nil]

theorem bytesOf_eq (s : String) : bytesOf s = s.toByteArray.data.toList :=
  toList_loop s.toUTF8 0 []

theorem bytesOf_append (s t : String) : bytesOf (s ++ t) = bytesOf s ++ bytesOf t := by
  simp [bytesOf_eq]

theorem length_bytesOf (s : String) : (bytesOf s).length = s.utf8ByteSize := by
  rw [bytesOf_eq, Array.length_toList]
  rfl

/-- A text that bytes encode has these bytes. -/
theorem bytesOf_of_fromUTF8? {data : List UInt8} {s : String}
    (h : String.fromUTF8? ⟨data.toArray⟩ = some s) : bytesOf s = data := by
  unfold String.fromUTF8? at h
  split at h
  · obtain rfl := Option.some.inj h
    rw [bytesOf_eq]
    rfl
  · cases h

/-- The bytes of a text encode it. -/
theorem fromUTF8?_bytesOf (s : String) :
    String.fromUTF8? ⟨(bytesOf s).toArray⟩ = some s := by
  have hbytes : (⟨(bytesOf s).toArray⟩ : ByteArray) = s.toByteArray := by
    apply ByteArray.ext
    rw [bytesOf_eq, Array.toArray_toList]
  rw [hbytes]
  exact dif_pos s.isValidUTF8

theorem isText_bytesOf (s : String) : IsText (bytesOf s) := by
  unfold IsText
  rw [bytesOf_eq, Array.toArray_toList]
  exact s.isValidUTF8

/-- What stands between two boundaries of a text is a text. -/
theorem isText_segment {start stop : Nat} (hle : start ≤ stop) (hstart : IsBoundary source start)
    (hstop : IsBoundary source stop) : IsText (((bytesOf source).take stop).drop start) := by
  have hvalid := (String.Pos.Raw.isValidUTF8_extract_iff ⟨start⟩ ⟨stop⟩ hle
    hstop.le_rawEndPos).mpr (Or.inr ⟨hstart, hstop⟩)
  have heq : (⟨(((bytesOf source).take stop).drop start).toArray⟩ : ByteArray) =
      source.toByteArray.extract start stop := by
    apply ByteArray.ext
    rw [bytesOf_eq, ByteArray.data_extract, ← Array.toList_inj, Array.toList_extract]
    simp [List.drop_take]
  unfold IsText
  rw [heq]
  exact hvalid

theorem IsText.append {xs ys : List UInt8} (hxs : IsText xs) (hys : IsText ys) :
    IsText (xs ++ ys) := by
  have happ : (⟨(xs ++ ys).toArray⟩ : ByteArray) = ⟨xs.toArray⟩ ++ ⟨ys.toArray⟩ := by
    apply ByteArray.ext
    simp
  unfold IsText
  rw [happ]
  exact ByteArray.IsValidUTF8.append hxs hys

/-- The span of a fix lies in the text. -/
structure InRange (source : String) (f : Fix) : Prop where
  start_le : f.start ≤ f.stop
  stop_le : f.stop ≤ (bytesOf source).length

/-- The span of a fix lies in the text, between characters. -/
structure Fits (source : String) (f : Fix) : Prop where
  start_le : f.start ≤ f.stop
  start : IsBoundary source f.start
  stop : IsBoundary source f.stop

theorem Fits.stop_le {f : Fix} (h : Fits source f) : f.stop ≤ (bytesOf source).length := by
  rw [length_bytesOf]
  exact h.stop.le_utf8ByteSize

theorem Fits.inRange {f : Fix} (h : Fits source f) : InRange source f := ⟨h.start_le, h.stop_le⟩

/-- Replacing spans that fit leaves a text. -/
theorem isText_replaceBetween {pos stop : Nat} (hfit : ∀ f ∈ fs, Fits source f)
    (hasc : Ascending fs) (hpos : IsBoundary source pos) (hstop : IsBoundary source stop)
    (hle : pos ≤ stop) (hleft : ∀ f ∈ fs, pos ≤ f.start) (hright : ∀ f ∈ fs, f.stop ≤ stop) :
    IsText (replaceBetween (bytesOf source) pos stop fs) := by
  induction fs generalizing pos with
  | nil => exact isText_segment hle hpos hstop
  | cons f fs ih =>
    have hf := hfit f List.mem_cons_self
    obtain ⟨hfs, hasc⟩ := List.pairwise_cons.mp hasc
    have hbefore := isText_segment (hleft f List.mem_cons_self) hpos hf.start
    have hafter := ih (fun g hg => hfit g (List.mem_cons_of_mem _ hg)) hasc hf.stop
      (hright f List.mem_cons_self) hfs fun g hg => hright g (List.mem_cons_of_mem _ hg)
    exact (hbefore.append (isText_bytesOf f.replacement)).append hafter

/-- The fixes that are applied to a text, from the left to the right. -/
def applied (source : String) (fixes : List Fix) : List Fix :=
  (chosen (bytesOf source).length (ordered fixes)).reverse

theorem mem_of_mem_applied {f : Fix} (h : f ∈ applied source fixes) : f ∈ fixes :=
  mem_of_mem_ordered (mem_of_mem_chosen (List.mem_reverse.mp h))

theorem ascending_applied (hspan : ∀ f ∈ fixes, f.start ≤ f.stop) :
    Ascending (applied source fixes) :=
  ascending_chosen fun f hf => hspan f (mem_of_mem_ordered hf)

/-- If there is a fix at all, one is applied. -/
theorem applied_ne_nil (hfit : ∀ f ∈ fixes, Fits source f) (h : fixes ≠ []) :
    applied source fixes ≠ [] := by
  obtain ⟨f, rest, heq⟩ := List.exists_cons_of_ne_nil (ordered_ne_nil h)
  have hmem : f ∈ fixes := mem_of_mem_ordered (by rw [heq]; exact List.mem_cons_self)
  have hstop := (hfit f hmem).stop_le
  unfold applied
  rw [heq, chosen, if_neg (by omega)]
  simp

/-- **Fixes as one replacement.**  The bytes after all fixes are those of the source, with the spans
of the applied fixes replaced. -/
theorem applyBytes_eq_replace (hin : ∀ f ∈ fixes, InRange source f) :
    applyBytes source fixes = replaceSpans (bytesOf source) (applied source fixes) := by
  have hspan : ∀ f ∈ ordered fixes, f.start ≤ f.stop := fun f hf =>
    (hin f (mem_of_mem_ordered hf)).start_le
  have hstop : ∀ f ∈ ordered fixes, f.stop ≤ (bytesOf source).length := fun f hf =>
    (hin f (mem_of_mem_ordered hf)).stop_le
  have hall := applyInOrder_eq (bytesOf source) [] hspan (Nat.le_refl _)
  rw [List.take_length, List.append_nil, List.append_nil] at hall
  unfold applyBytes replaceSpans applied
  rw [← hall]
  exact applyInOrder_congr (fun f hf => Nat.le_succ_of_le (hstop f hf)) hstop

/-- Without fixes the text stays as it is. -/
theorem patch?_nil (source : String) : patch? source [] = some source := by
  have hnone : ordered [] = [] := List.mergeSort_nil
  unfold patch? applyBytes
  rw [hnone]
  exact fromUTF8?_bytesOf source

/-- **Fixes that fit leave a text.** -/
theorem patch?_eq_replace (hfit : ∀ f ∈ fixes, Fits source f) : ∃ out,
    patch? source fixes = some out ∧
      bytesOf out = replaceSpans (bytesOf source) (applied source fixes) := by
  have hin : ∀ f ∈ fixes, InRange source f := fun f hf => (hfit f hf).inRange
  have hmem : ∀ f ∈ applied source fixes, Fits source f :=
    fun f hf => hfit f (mem_of_mem_applied hf)
  have hend : IsBoundary source (bytesOf source).length := by
    rw [length_bytesOf]
    exact String.Pos.Raw.isValid_rawEndPos
  have htext : IsText (applyBytes source fixes) := by
    rw [applyBytes_eq_replace hin]
    exact isText_replaceBetween hmem (ascending_applied fun f hf => (hfit f hf).start_le)
      String.Pos.Raw.isValid_zero hend (Nat.zero_le _) (fun _ _ => Nat.zero_le _)
      fun f hf => (hmem f hf).stop_le
  refine ⟨String.fromUTF8 _ htext, dif_pos htext, ?_⟩
  rw [bytesOf_eq, ← applyBytes_eq_replace hin]
  rfl

end Texts

end HookLint.Report.Fix
