/-!
Streams of frames: a frame is a header of fixed length, from which the length
of the body is computed, and the body. No frame is a proper prefix of another,
so a stream falls into frames in one way only.
-/
namespace IpcPortable.Frames
universe u
variable {α : Type u}

/-- How the frames of a stream are delimited. -/
structure Framing (α : Type u) where
  header : Nat
  header_pos : 0 < header
  declared : List α → Nat

/-- The length of the frame at the start of a stream that has its header. -/
def Framing.size (F : Framing α) (stream : List α) : Nat := F.header + F.declared (stream.take F.header)
/-- The list is one whole frame. -/
structure Framing.Frame (F : Framing α) (f : List α) : Prop where
  header : F.header ≤ f.length
  length : f.length = F.size f
/-- The list ends before its first frame does. -/
def Framing.Incomplete (F : Framing α) (held : List α) : Prop :=
  held.length < F.header ∨ held.length < F.size held
/-- What is missing from the header or, once it is there, from the frame. -/
def Framing.missing (F : Framing α) (held : List α) : Nat :=
  if held.length < F.header then F.header - held.length else F.size held - held.length

variable {F : Framing α}

theorem missing_pos {held : List α} (incomplete : F.Incomplete held) : 0 < F.missing held := by
  unfold Framing.missing
  rcases incomplete with short | short
  · rw [if_pos short]
    omega
  · split <;> omega

theorem size_append {a : List α} (header : F.header ≤ a.length) (b : List α) : F.size (a ++ b) = F.size a := by
  rw [Framing.size,List.take_append_of_le_length header]
  rfl

/-- Frames are prefix-free: where two streams agree, so do their first frames. -/
theorem frame_first {f g a b : List α} (left : F.Frame f) (right : F.Frame g) (same : f ++ a = g ++ b) :
    f = g ∧ a = b := by
  have length : f.length = g.length := by
    rw [left.length,right.length,← size_append left.header a,← size_append right.header b,same]
  exact List.append_inj same length

/-- What is incomplete does not begin with a frame. -/
theorem incomplete_first {f a : List α} (frame : F.Frame f) : ¬ F.Incomplete (f ++ a) := by
  have header := frame.header
  have length := frame.length
  rintro (short | short)
  · simp at short
    omega
  · rw [size_append header a] at short
    simp at short
    omega

/-- Frames at the start of a stream that ends incomplete are among its first
    frames. -/
theorem frames_incomplete {first frames : List (List α)} (left : ∀ f ∈ first, F.Frame f)
    (right : ∀ f ∈ frames, F.Frame f) {rest held : List α} (incomplete : F.Incomplete held)
    (same : first.flatten ++ rest = frames.flatten ++ held) :
    ∃ later, frames = first ++ later ∧ rest = later.flatten ++ held := by
  induction first generalizing frames with
  | nil => exact ⟨frames,rfl,by simpa using same⟩
  | cons f first ih =>
    cases frames with
    | nil =>
      simp only [List.flatten_cons,List.append_assoc,List.flatten_nil,List.nil_append] at same
      rw [← same] at incomplete
      exact absurd incomplete (incomplete_first (left f List.mem_cons_self))
    | cons g frames =>
      simp only [List.flatten_cons,List.append_assoc] at same
      obtain ⟨rfl,behind⟩ := frame_first (left f List.mem_cons_self) (right g List.mem_cons_self) same
      obtain ⟨later,rfl,ends⟩ := ih (fun f member => left f (List.mem_cons_of_mem _ member))
        (fun f member => right f (List.mem_cons_of_mem _ member)) behind
      exact ⟨later,rfl,ends⟩

/-- Frames at the start of a stream of frames are its first frames. -/
theorem frames_prefix {first frames : List (List α)} (left : ∀ f ∈ first, F.Frame f) (right : ∀ f ∈ frames, F.Frame f)
    {rest : List α} (same : first.flatten ++ rest = frames.flatten) :
    ∃ later, frames = first ++ later ∧ rest = later.flatten := by
  have nothing : F.Incomplete [] := .inl F.header_pos
  rw [← List.append_nil frames.flatten] at same
  obtain ⟨later,is,ends⟩ := frames_incomplete left right nothing same
  exact ⟨later,is,by rwa [List.append_nil] at ends⟩

end IpcPortable.Frames
