import Mathlib.Data.List.Basic
import QueueWatch.File.Disk

/-!
# Files that change

Whatever is done to files, a file that exists goes on to exist. Its contents change when it is
written in place or extended, through any path that leads to it at that time; a file that is
replaced or removed keeps them (`FileChange.alters_apply`).
-/

namespace QueueWatch

namespace Disk

variable {d d' d'' : Disk} {file : FileId} {old : List UInt8}
  {effect : FileId → List UInt8 → List UInt8}

/-- What a regular file holds. -/
def contents? (d : Disk) (file : FileId) : Option (List UInt8) :=
  match d.body? file with
  | some (.stored contents _) => some contents
  | _ => none

theorem contents?_eq_some_iff :
    d.contents? file = some old ↔ ∃ reported, d.body? file = some (.stored old reported) := by
  unfold contents?
  split <;> simp_all

/-- Files that do not exist yet have no contents. -/
def Sound (d : Disk) : Prop :=
  ∀ file, d.fresh ≤ file → d.body? file = none

theorem sound_of_no_bodies (places : Std.ExtTreeMap Place FileId) : Sound ⟨places, ∅, 0⟩ := by
  intro file _
  simp [body?]

/-- A disk that has come from another one without a change to a file. -/
structure Grows (d d' : Disk) : Prop where
  sound : d'.Sound
  body : ∀ file body, d.body? file = some body → d'.body? file = some body

theorem Grows.trans (h : d.Grows d') (h' : d'.Grows d'') : d.Grows d'' :=
  ⟨h'.sound, fun file body hbody => h'.body file body (h.body file body hbody)⟩

theorem Sound.grows (h : d.Sound) : d.Grows d :=
  ⟨h, fun _ _ hbody => hbody⟩

theorem body?_put (d : Disk) (place : Place) (body : FileBody) (file : FileId) :
    (d.put place body).body? file = if d.fresh = file then some body else d.body? file := by
  simp [body?, put, Std.ExtTreeMap.getElem?_insert]

theorem Sound.put (h : d.Sound) (place : Place) (body : FileBody) :
    d.Grows (d.put place body) := by
  refine ⟨fun file hfile => ?_, fun file old hold => ?_⟩
  · have hlt : d.fresh < file := hfile
    rw [body?_put, if_neg (Nat.ne_of_lt hlt)]
    exact h file (Nat.le_of_lt hlt)
  · rw [body?_put, if_neg ?_]
    · exact hold
    · rintro rfl
      rw [h d.fresh (Nat.le_refl _)] at hold
      cases hold

theorem sound_empty : empty.Sound :=
  ((sound_of_no_bodies ∅).put ..).sound

theorem Sound.ensureDirectory (h : d.Sound) (place : Place) :
    d.Grows (d.ensureDirectory place) := by
  unfold Disk.ensureDirectory
  split
  · exact h.grows
  · exact h.put ..

theorem Sound.foldl_ensureDirectory (h : d.Sound) (way : List Place) :
    d.Grows (way.foldl Disk.ensureDirectory d) := by
  induction way generalizing d with
  | nil => exact h.grows
  | cons place way ih =>
      have hplace := h.ensureDirectory place
      exact hplace.trans (ih hplace.sound)

theorem Sound.create (h : d.Sound) (path : String) (body : FileBody) :
    d.Grows (d.create path body) := by
  have hway := h.foldl_ensureDirectory (Place.way [] (pathSteps path))
  exact hway.trans (hway.sound.put ..)

/-- A disk that has come from another one, where regular files hold what the effect makes of what
they held. -/
structure Alters (d d' : Disk) (effect : FileId → List UInt8 → List UInt8) : Prop where
  sound : d'.Sound
  contents? : ∀ file old, d.contents? file = some old → d'.contents? file = some (effect file old)

theorem Grows.alters (h : d.Grows d')
    (heffect : ∀ file old, d.contents? file = some old → effect file old = old) :
    d.Alters d' effect := by
  refine ⟨h.sound, fun file old hold => ?_⟩
  rw [heffect file old hold]
  rw [contents?_eq_some_iff] at hold ⊢
  rcases hold with ⟨reported, hbody⟩
  exact ⟨reported, h.body file _ hbody⟩

theorem body?_insert (d : Disk) (changed : FileId) (body : FileBody) (file : FileId) :
    Disk.body? { d with bodies := d.bodies.insert changed body } file =
      if changed = file then some body else d.body? file := by
  simp [body?, Std.ExtTreeMap.getElem?_insert]

/-- A file that exists can be given another body. -/
theorem Sound.insert (h : d.Sound) {changed : FileId} (hchanged : d.body? changed ≠ none)
    (body : FileBody) : Sound { d with bodies := d.bodies.insert changed body } := by
  intro file hfile
  rw [body?_insert, if_neg]
  · exact h file hfile
  · rintro rfl
    exact hchanged (h changed hfile)

/-- To write through a path changes the file there, or creates one. -/
theorem Sound.change (h : d.Sound) (path : String) (contents : List UInt8 → List UInt8) :
    d.Alters (d.change path contents) fun file old =>
      if d.locate path = .ok file then contents old else old := by
  unfold Disk.change
  cases hlocate : d.locate path with
  | error cause =>
      cases cause with
      | notFound => exact (h.create ..).alters fun _ _ _ => if_neg nofun
      | _ => exact h.grows.alters fun _ _ _ => if_neg nofun
  | ok changed =>
      simp only [Except.ok.injEq]
      -- A file that is not a regular one stays as it is.
      have hother (hnone : d.contents? changed = none) : d.Alters d fun file old =>
          if changed = file then contents old else old := by
        refine h.grows.alters fun file old hold => if_neg ?_
        rintro rfl
        rw [hnone] at hold
        cases hold
      cases hbody : d.body? changed with
      | none => exact hother (by rw [contents?, hbody])
      | some body =>
          cases body with
          | directory reported => exact hother (by rw [contents?, hbody])
          | pipe bytes => exact hother (by rw [contents?, hbody])
          | stored bytes reported =>
              refine ⟨h.insert (by rw [hbody]; exact nofun) _, fun file old hold => ?_⟩
              rw [contents?, body?_insert]
              by_cases hfile : changed = file
              · subst hfile
                rw [contents?, hbody] at hold
                cases hold
                rw [if_pos rfl, if_pos rfl]
              · rw [if_neg hfile, if_neg hfile]
                exact hold

/-- A file that is removed keeps what it holds. -/
theorem Sound.remove (h : d.Sound) (path : String) :
    d.Alters (d.remove path) fun _ old => old := by
  unfold Disk.remove
  split
  · exact h.grows.alters fun _ _ _ => rfl
  next removed _ =>
    have hbody : ∀ file, Disk.body? { d with
        places := d.places.erase (Place.ofPath path)
        bodies := d.bodies.modify removed FileBody.unlinked } file =
          if removed = file then (d.body? file).map FileBody.unlinked else d.body? file := by
      intro file
      by_cases hfile : removed = file
      · simp [body?, hfile]
      · simp [body?, Std.ExtTreeMap.getElem?_modify, hfile]
    refine ⟨fun file hfile => ?_, fun file old hold => ?_⟩
    · rw [hbody, h file hfile]
      exact ite_self none
    · rw [contents?_eq_some_iff] at hold ⊢
      rcases hold with ⟨reported, hstored⟩
      refine ⟨reported, ?_⟩
      rw [hbody, hstored]
      exact ite_self _

end Disk

/-- What is done to files. -/
inductive FileChange where
  | write (path : String) (bytes : List UInt8)
  | append (path : String) (bytes : List UInt8)
  | replace (path : String) (bytes : List UInt8)
  | remove (path : String)

namespace FileChange

def apply (d : Disk) : FileChange → Disk
  | write path bytes => d.write path bytes
  | append path bytes => d.append path bytes
  | replace path bytes => d.replace path bytes
  | remove path => d.remove path

/-- What becomes of the contents of a file. A file that is replaced or removed keeps them. -/
def effect (d : Disk) (file : FileId) (old : List UInt8) : FileChange → List UInt8
  | write path bytes => if d.locate path = .ok file then bytes else old
  | append path bytes => if d.locate path = .ok file then old ++ bytes else old
  | replace _ _ => old
  | remove _ => old

/-- A change keeps every regular file, with the contents that it is to have. -/
theorem alters_apply {d : Disk} (h : d.Sound) (c : FileChange) :
    d.Alters (c.apply d) fun file old => c.effect d file old := by
  cases c with
  | write path bytes => exact h.change path fun _ => bytes
  | append path bytes => exact h.change path (· ++ bytes)
  | replace path bytes =>
      exact (h.create path (.stored bytes bytes.length)).alters fun _ _ _ => rfl
  | remove path => exact h.remove path

end FileChange

end QueueWatch
