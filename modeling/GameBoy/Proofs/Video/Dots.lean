import GameBoy.Proofs.Actions
import GameBoy.Proofs.Video.Course

/-!
# The display dot by dot

Letting many dots pass at once is letting one dot pass many times, but for the note whether a line
was drawn, which is begun anew each time. So whatever is done to a display can be done dot by dot,
and what is to be known of every moment needs to be known of single dots and of writes alone.

* `Video.Action`, `Video.perform`: what one may do to a display.
* `advance_one_of_lt`, `advance_one_of_eq`: one dot moves the display on, or ends the phase.
* `alike_dotwise`: actions lead to the display that the same actions dot by dot lead to.
* `Video.moment`: the displays on the way.
-/

namespace GameBoy.Video

/-! ## Actions -/

/-- What one may do to a display. -/
inductive Action
  /-- Some dots pass at once. -/
  | pass (dots : Nat)
  /-- A program writes. -/
  | write (l : Location) (b : UInt8)
  /-- The last complete picture is taken. -/
  | takeFrame

/-- The display after an action. -/
def perform (v : Video) : Action → Video
  | .pass dots => (v.advance dots).1
  | .write l b => (v.write l b).1
  | .takeFrame => v.takeFrame.2

instance : Actions Video Action := ⟨perform⟩

theorem Placed.perform {v : Video} (h : v.Placed) (a : Action) : (v.perform a).Placed := by
  cases a with
  | pass dots => exact (h.advance dots).1
  | write l b => exact h.write l b
  | takeFrame => exact h.congr rfl rfl rfl rfl

theorem Placed.performAll {v : Video} (h : v.Placed) (as : List Action) :
    (performAll v as).Placed :=
  List.foldlRecOn (motive := Placed) as _ h fun _ hv a _ => hv.perform a

/-! ## One dot -/

/-- No dots leave a display that is on where it is. -/
theorem scan_zero {v : Video} (h : v.Placed) (r : Requests) : v.scan r 0 = (v, r) :=
  scan_of_lt r h.dot_lt_boundary

theorem advance_zero {v : Video} (h : v.Placed) :
    v.advance 0 = ({ v with lineDrawn := false }, ∅) := by
  cases hon : v.control.isOn with
  | false => exact advance_of_off hon 0
  | true => rw [advance_of_on hon, scan_zero h.forget]

/-- Within a phase a dot moves the display on. -/
theorem advance_one_of_lt {v : Video} (hon : v.control.isOn = true)
    (hdot : v.dot + 1 < v.phase.boundary) :
    v.advance 1 = ({ v with dot := v.dot + 1, lineDrawn := false }, ∅) := by
  rw [advance_of_on hon]
  exact scan_of_lt (v := { v with lineDrawn := false }) ∅ hdot

/-- The last dot of a phase ends it. -/
theorem advance_one_of_eq {v : Video} (h : v.Placed) (hon : v.control.isOn = true)
    (hdot : v.dot + 1 = v.phase.boundary) :
    v.advance 1 = endPhase { v with dot := v.phase.boundary, lineDrawn := false } := by
  have hended := h.forget.endPhase (n := v.phase.boundary) hon rfl
  have hleft : 1 - (v.phase.boundary - v.dot) = 0 := by omega
  rw [advance_of_on hon,
    scan_of_le (v := { v with lineDrawn := false }) ∅ h.dot_lt_boundary (Nat.le_of_eq hdot.symm)]
  simp only [hleft, Requests.empty_union]
  exact scan_zero hended _

/-- A dot moves the display on or ends the phase. -/
theorem Placed.dot_cases {v : Video} (h : v.Placed) :
    v.dot + 1 < v.phase.boundary ∨ v.dot + 1 = v.phase.boundary := by
  have := h.dot_lt_boundary
  omega

/-! ## Actions dot by dot -/

/-- Two displays that differ at most in the note whether a line was drawn. -/
def Alike (v w : Video) : Prop := ∃ drawn, w = { v with lineDrawn := drawn }

theorem Alike.refl (v : Video) : Alike v v := ⟨v.lineDrawn, rfl⟩

theorem Alike.trans {v w x : Video} (h : Alike v w) (k : Alike w x) : Alike v x := by
  obtain ⟨d, rfl⟩ := h
  obtain ⟨e, rfl⟩ := k
  exact ⟨e, rfl⟩

/-- No action looks at the note. -/
theorem Alike.perform {v w : Video} (h : Alike v w) (a : Action) :
    Alike (v.perform a) (w.perform a) := by
  obtain ⟨drawn, rfl⟩ := h
  cases a with
  | pass dots => exact .refl _
  | takeFrame => exact ⟨drawn, rfl⟩
  | write l b =>
    refine ⟨drawn, ?_⟩
    cases l with
    | control =>
      change (Video.setControl { v with lineDrawn := drawn } b).1 =
        { (v.setControl b).1 with lineDrawn := drawn }
      simp only [setControl]
      split
      · rfl
      · rw [updateStatus_fst, updateStatus_fst]
        rfl
      · rfl
    | status | lineCompare =>
      change (updateStatus _).1 = { (updateStatus _).1 with lineDrawn := drawn }
      rw [updateStatus_fst, updateStatus_fst]
      rfl
    | _ => rfl

theorem Alike.performAll {v w : Video} (h : Alike v w) (as : List Action) :
    Alike (performAll v as) (performAll w as) := by
  induction as generalizing v w with
  | nil => exact h
  | cons a as ih => exact ih (h.perform a)

/-- An action with its dots one by one. -/
def Action.dotwise : Action → List Action
  | .pass dots => List.replicate dots (.pass 1)
  | .write l b => [.write l b]
  | .takeFrame => [.takeFrame]

/-- Actions with their dots one by one. -/
def dotwise (as : List Action) : List Action := as.flatMap Action.dotwise

/-- Dots that pass at once are dots that pass one by one. -/
theorem alike_pass {v : Video} (h : v.Placed) (n : Nat) :
    Alike (v.advance n).1 (performAll v (List.replicate n (.pass 1))) := by
  induction n with
  | zero =>
    rw [advance_zero h]
    exact ⟨v.lineDrawn, rfl⟩
  | succ n ih =>
    have hlast : Alike (v.advance (n + 1)).1 ((v.advance n).1.advance 1).1 := by
      rw [advance_add h]
      exact ⟨((v.advance n).1.advance 1).1.lineDrawn, rfl⟩
    rw [List.replicate_succ', performAll_append]
    exact hlast.trans (ih.perform (.pass 1))

theorem alike_perform {v : Video} (h : v.Placed) (a : Action) :
    Alike (v.perform a) (performAll v a.dotwise) := by
  cases a with
  | pass dots => exact alike_pass h dots
  | write l b => exact .refl _
  | takeFrame => exact .refl _

/-- Whatever is done to a display can be done dot by dot. -/
theorem alike_dotwise {v : Video} (h : v.Placed) (as : List Action) :
    Alike (performAll v as) (performAll v (dotwise as)) := by
  induction as generalizing v with
  | nil => exact .refl _
  | cons a as ih =>
    have hrest := ih (h.perform a)
    have hsame := (alike_perform h a).performAll (dotwise as)
    rw [show dotwise (a :: as) = a.dotwise ++ dotwise as from rfl, performAll_append]
    exact hrest.trans hsame

/-- Whether at most one dot passes in an action. -/
def Action.IsSingle : Action → Prop
  | .pass dots => dots = 1
  | _ => True

theorem isSingle_of_mem_dotwise {as : List Action} {a : Action} (h : a ∈ dotwise as) :
    a.IsSingle := by
  obtain ⟨b, -, hb⟩ := List.mem_flatMap.1 h
  cases b with
  | pass dots =>
    rw [List.eq_of_mem_replicate hb]
    rfl
  | write l b =>
    rw [List.mem_singleton.1 hb]
    trivial
  | takeFrame =>
    rw [List.mem_singleton.1 hb]
    trivial

/-! ## Moments -/

/-- The display after the first `k` actions. -/
def moment (v : Video) (as : List Action) (k : Nat) : Video := performAll v (as.take k)

@[simp] theorem moment_zero (v : Video) (as : List Action) : v.moment as 0 = v := rfl

theorem moment_length (v : Video) (as : List Action) : v.moment as as.length = performAll v as := by
  rw [moment, List.take_length]

/-- From a moment to the next one leads an action. -/
theorem moment_succ (v : Video) {as : List Action} {k : Nat} (h : k < as.length) :
    v.moment as (k + 1) = (v.moment as k).perform as[k] := by
  rw [moment, List.take_add_one, List.getElem?_eq_getElem h, performAll_append]
  rfl

/-- After the last action nothing happens. -/
theorem moment_of_le (v : Video) {as : List Action} {k : Nat} (h : as.length ≤ k) :
    v.moment as k = performAll v as := by
  rw [moment, List.take_of_length_le h]

theorem Placed.moment {v : Video} (h : v.Placed) (as : List Action) (k : Nat) :
    (v.moment as k).Placed :=
  h.performAll _

end GameBoy.Video
