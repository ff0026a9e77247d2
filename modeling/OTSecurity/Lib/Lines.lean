import Mathlib.Data.List.Induction
import OTSecurity.Lib.Bytes

/-!
# Lines of a growing byte stream

A line is complete once its newline is there.

* `splitLines` — the complete lines and the partial last one.
* `lineNo p data off` — how many of the lines complete before `off` satisfy `p`.
* `LineAt data off line` — a complete line starts at `off`.
* `LineAt.next` — the offset after a line, and its number.
* `lineAt_unique` — the line of `p` with a given number is unique.
* `LineAt.append`, `lineNo_append` — growth of the stream changes none of this.
-/

namespace OTS

def NEWLINE : UInt8 := 10

def lineStep (st : List Bytes × Bytes) (b : UInt8) : List Bytes × Bytes :=
  if b = NEWLINE then (st.1 ++ [st.2], []) else (st.1, st.2 ++ [b])

/-- The complete lines and the partial last line. -/
def splitLines (data : Bytes) : List Bytes × Bytes := data.foldl lineStep ([], [])

theorem foldl_lineStep {x : Bytes} (hx : NEWLINE ∉ x) (st : List Bytes × Bytes) :
    x.foldl lineStep st = (st.1, st.2 ++ x) := by
  induction x generalizing st with
  | nil => simp
  | cons b x ih =>
    rw [List.mem_cons, not_or] at hx
    rw [List.foldl_cons, ih hx.2, lineStep, if_neg (fun e => hx.1 e.symm)]
    simp

/-- More bytes without a newline extend the partial line. -/
theorem splitLines_append {a x : Bytes} (hx : NEWLINE ∉ x) :
    splitLines (a ++ x) = ((splitLines a).1, (splitLines a).2 ++ x) := by
  unfold splitLines
  rw [List.foldl_append, foldl_lineStep hx]

/-- A newline completes the partial line. -/
theorem splitLines_newline {a x : Bytes} (hx : NEWLINE ∉ x) :
    splitLines (a ++ x ++ [NEWLINE]) = ((splitLines a).1 ++ [(splitLines a).2 ++ x], []) := by
  have h := splitLines_append (a := a) hx
  unfold splitLines at h ⊢
  rw [List.foldl_append, h]
  simp [lineStep]

/-- The lines and the partial last one put together are the data. -/
theorem splitLines_flatten (data : Bytes) :
    data = ((splitLines data).1.map (· ++ [NEWLINE])).flatten ++ (splitLines data).2 := by
  induction data using List.reverseRecOn with
  | nil => rfl
  | append_singleton data b ih =>
    have hlast : splitLines (data ++ [b]) = lineStep (splitLines data) b := by
      unfold splitLines
      rw [List.foldl_append, List.foldl_cons, List.foldl_nil]
    rw [hlast, lineStep]
    split
    · rename_i hb
      rw [List.map_append, List.flatten_append, List.append_nil]
      simp only [List.map_cons, List.map_nil, List.flatten_cons, List.flatten_nil, List.append_nil, hb]
      rw [← List.append_assoc, ← ih]
    · rw [← List.append_assoc, ← ih]

theorem splitLines_initial (a b : Bytes) : (splitLines a).1 <+: (splitLines (a ++ b)).1 := by
  unfold splitLines
  rw [List.foldl_append]
  generalize a.foldl lineStep ([], []) = st
  induction b generalizing st with
  | nil => exact List.prefix_refl _
  | cons x b ih =>
    rw [List.foldl_cons]
    refine List.IsPrefix.trans ?_ (ih (lineStep st x))
    unfold lineStep
    split
    · exact List.prefix_append _ _
    · exact List.prefix_refl _

variable (p : Bytes → Bool)

/-- The number of complete lines before `off` that satisfy `p`. -/
def lineNo (data : Bytes) (off : Nat) : Nat := (splitLines (data.take off)).1.countP p

@[simp] theorem lineNo_zero (data : Bytes) : lineNo p data 0 = 0 := rfl

theorem lineNo_mono (data : Bytes) {a b : Nat} (h : a ≤ b) : lineNo p data a ≤ lineNo p data b := by
  have htake : data.take b = data.take a ++ (data.take b).drop a := by
    have hsplit := (List.take_append_drop a (data.take b)).symm
    rwa [List.take_take, Nat.min_eq_left h] at hsplit
  unfold lineNo
  rw [htake]
  exact (splitLines_initial _ _).sublist.countP_le

theorem lineNo_append {data : Bytes} {off : Nat} (h : off ≤ data.length) (more : Bytes) :
    lineNo p (data ++ more) off = lineNo p data off := by
  unfold lineNo
  rw [List.take_append_of_le_length h]

/-- `off` is where a line starts. -/
def AtLine (data : Bytes) (off : Nat) : Prop :=
  off ≤ data.length ∧ (splitLines (data.take off)).2 = []

theorem AtLine.zero (data : Bytes) : AtLine data 0 := ⟨Nat.zero_le _, rfl⟩

theorem AtLine.append {data : Bytes} {off : Nat} (h : AtLine data off) (more : Bytes) :
    AtLine (data ++ more) off := by
  refine ⟨by rw [List.length_append]; have := h.1; omega, ?_⟩
  rw [List.take_append_of_le_length h.1]
  exact h.2

/-- The complete line `line` starts at `off`. -/
structure LineAt (data : Bytes) (off : Nat) (line : Bytes) : Prop where
  start : AtLine data off
  length : off + line.length + 1 ≤ data.length
  bytes : data.take (off + line.length + 1) = data.take off ++ line ++ [NEWLINE]
  newline : NEWLINE ∉ line

theorem LineAt.append {data line : Bytes} {off : Nat} (h : LineAt data off line) (more : Bytes) :
    LineAt (data ++ more) off line where
  start := h.start.append more
  length := by rw [List.length_append]; have := h.length; omega
  bytes := by
    rw [List.take_append_of_le_length h.length, List.take_append_of_le_length h.start.1, h.bytes]
  newline := h.newline

/-- **After a line**: another line starts there, and it has been counted. -/
theorem LineAt.next {data line : Bytes} {off : Nat} (h : LineAt data off line) :
    AtLine data (off + line.length + 1) ∧
      lineNo p data (off + line.length + 1) = lineNo p data off + if p line then 1 else 0 := by
  have hsplit := splitLines_newline (a := data.take off) h.newline
  rw [← h.bytes, h.start.2, List.nil_append] at hsplit
  refine ⟨⟨h.length, by rw [hsplit]⟩, ?_⟩
  unfold lineNo
  rw [hsplit, List.countP_append]
  simp [List.countP_cons]

/-- No line starts inside a line. -/
theorem LineAt.not_inside {data line : Bytes} {off b : Nat} (h : LineAt data off line)
    (hb : AtLine data b) (hlt : off < b) : off + line.length + 1 ≤ b := by
  by_cases hle : off + line.length + 1 ≤ b
  · exact hle
  · -- the partial line at `b` would not be empty
    exfalso
    have htake : data.take b = data.take off ++ line.take (b - off) := by
      have := congrArg (List.take b) h.bytes
      rw [List.take_take, Nat.min_eq_left (by omega), List.append_assoc, List.take_append,
        List.length_take, Nat.min_eq_left h.start.1,
        List.take_of_length_le (l := data.take off) (by rw [List.length_take]; omega),
        List.take_append_of_le_length (by omega)] at this
      exact this
    have hnot : NEWLINE ∉ line.take (b - off) := fun hm => h.newline (List.mem_of_mem_take hm)
    have hpart := hb.2
    rw [htake, splitLines_append hnot, h.start.2, List.nil_append] at hpart
    have hlen := congrArg List.length hpart
    rw [List.length_take, List.length_nil] at hlen
    omega

/-- A line of `p` is counted by every later line. -/
theorem lineNo_lt {data line : Bytes} {a b : Nat} (h : LineAt data a line) (hp : p line = true)
    (hb : AtLine data b) (hlt : a < b) : lineNo p data a < lineNo p data b := by
  have hnext := (h.next p).2
  rw [if_pos hp] at hnext
  have hmono := lineNo_mono p data (h.not_inside hb hlt)
  omega

/-- **The line of `p` with a given number is unique.** -/
theorem lineAt_unique {data la lb : Bytes} {a b : Nat} (ha : LineAt data a la) (hpa : p la = true)
    (hb : LineAt data b lb) (hpb : p lb = true) (hn : lineNo p data a = lineNo p data b) :
    a = b := by
  rcases Nat.lt_trichotomy a b with h | h | h
  · have := lineNo_lt p ha hpa hb.start h
    omega
  · exact h
  · have := lineNo_lt p hb hpb ha.start h
    omega

/-! ## Finding the newline in a buffer -/

theorem findIdx_newline {buf : Bytes} {nl : Nat} (h : buf.findIdx? (· = NEWLINE) = some nl) :
    nl < buf.length ∧ NEWLINE ∉ buf.take nl ∧
      buf = buf.take nl ++ [NEWLINE] ++ buf.drop (nl + 1) := by
  rw [List.findIdx?_eq_some_iff_getElem] at h
  obtain ⟨hlt, hnl, hbefore⟩ := h
  have hget : buf[nl] = NEWLINE := of_decide_eq_true hnl
  refine ⟨hlt, fun hm => ?_, ?_⟩
  · obtain ⟨j, hj, he⟩ := List.getElem_of_mem hm
    rw [List.length_take] at hj
    rw [List.getElem_take] at he
    have := hbefore j (by omega)
    simp [he] at this
  · rw [List.append_assoc, ← hget, List.singleton_append, ← List.drop_eq_getElem_cons hlt,
      List.take_append_drop]

theorem findIdx_none {buf : Bytes} (h : buf.findIdx? (· = NEWLINE) = none) : NEWLINE ∉ buf := by
  rw [List.findIdx?_eq_none_iff] at h
  intro hm
  have := h NEWLINE hm
  simp at this

end OTS
