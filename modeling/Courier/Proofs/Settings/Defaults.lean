import Courier.Proofs.FileSystem.Footprint
import Courier.Proofs.Settings.Layers
import Courier.Proofs.Settings.Rendering

/-!
# Writing the defaults changes nothing

The defaults can be given in two ways: by having no file, and by the file that `writeDefaultIfMissing`
writes. `ofFile_of_missing` and `ofFile_of_write` say that both give the same settings, so that
`load_of_writeDefaultIfMissing` holds in every environment.
-/

namespace Courier.Settings

variable {env : Environment} {fs fs' : FileSystem} {path : String}

theorem writeDefaultIfMissing_of_contains (h : fs.contains env.settingsFile = true) :
    writeDefaultIfMissing env fs = (fs, .ok env.settingsFile) :=
  if_pos h

/-- Where the file of the settings is missing, the defaults are written to it once its directory is
there. -/
theorem exists_write_of_writeDefaultIfMissing (hmissing : fs.contains env.settingsFile = false)
    (h : writeDefaultIfMissing env fs = (fs', .ok path)) :
    path = env.settingsFile ∧ ∃ made, makeParent fs path = (made, .ok ()) ∧
      made.write path (Bytes.ofText (Settings.default env).render) = .ok fs' := by
  unfold writeDefaultIfMissing at h
  rw [if_neg (by rw [hmissing]; decide)] at h
  split at h
  next => cases h
  next made hmade =>
    split at h
    next => cases h
    next written hwritten =>
      cases h
      exact ⟨rfl, made, hmade, hwritten⟩

/-! ## The two ways of giving the defaults -/

theorem ofFile_of_missing (h : fs.contains env.settingsFile = false) :
    ofFile env fs = .ok (Settings.default env) :=
  if_neg (by rw [h]; decide)

theorem ofFile_of_write
    (h : fs.write env.settingsFile (Bytes.ofText (Settings.default env).render) = .ok fs') :
    ofFile env fs' = .ok (Settings.default env) := by
  unfold ofFile
  rw [if_pos (FileSystem.contains_of_write h), FileSystem.readText_of_write h]
  simp only [ofText?_render (writable_default env)]

theorem exists_load_of_ofFile {base : Settings} (h : ofFile env fs = .ok base) :
    (∃ s, load env fs = .ok s) ∨ ∃ reason, load env fs = .error (.invalid reason) := by
  rw [load_of_ofFile h, validate_eq]
  split_ifs
  · exact .inr ⟨_, rfl⟩
  · exact .inr ⟨_, rfl⟩
  · exact .inl ⟨_, rfl⟩

/-- **Writing the defaults changes no settings.** Where the file of the settings is missing and can be
written, the same is loaded afterwards as before, be it the settings or the reason why they are refused,
and writing once more changes nothing. Where the file is there, nothing is written, whatever it holds. -/
theorem load_of_writeDefaultIfMissing (env : Environment) (fs : FileSystem) :
    (∀ fs' path, fs.contains env.settingsFile = false →
      writeDefaultIfMissing env fs = (fs', .ok path) →
      path = env.settingsFile ∧ load env fs' = load env fs ∧
      ((∃ s, load env fs = .ok s) ∨ ∃ reason, load env fs = .error (.invalid reason)) ∧
      writeDefaultIfMissing env fs' = (fs', .ok path)) ∧
    (fs.contains env.settingsFile = true →
      writeDefaultIfMissing env fs = (fs, .ok env.settingsFile)) := by
  refine ⟨fun fs' path hmissing h => ?_, writeDefaultIfMissing_of_contains⟩
  obtain ⟨rfl, made, -, hwrite⟩ := exists_write_of_writeDefaultIfMissing hmissing h
  have hbefore := ofFile_of_missing hmissing
  have hafter := ofFile_of_write hwrite
  refine ⟨rfl, ?_, exists_load_of_ofFile hbefore, ?_⟩
  · rw [load_of_ofFile hbefore, load_of_ofFile hafter]
  · exact writeDefaultIfMissing_of_contains (FileSystem.contains_of_write hwrite)

/-- A home directory whose name has both kinds of quotes, a backslash, a line break, a control character
and a letter that is not ASCII. -/
def quotingEnvironment : Environment := fun name =>
  [("HOME", "/\x22\x27\\\n\x01é"), ("SLUICE_TRANSPORT__CLOSE_GRACE_SECS", "5")].lookup name

/-- The files after the defaults were written where there were none. -/
def quotingFiles : FileSystem := (writeDefaultIfMissing quotingEnvironment ⟨[], [], 0⟩).1

/-- The file that was written gives this directory, the environment still gives its number, and the file
is not written again. -/
theorem load_quotingFiles : load quotingEnvironment quotingFiles =
      .ok ⟨⟨30, 5, 15000⟩, ⟨"/\x22\x27\\\n\x01é/.local/share/sluice/envelopes", 30⟩⟩ ∧
    writeDefaultIfMissing quotingEnvironment quotingFiles =
      (quotingFiles, .ok quotingEnvironment.settingsFile) := by
  have hmissing : FileSystem.contains ⟨[], [], 0⟩ quotingEnvironment.settingsFile = false := by
    decide +kernel
  have hok : (writeDefaultIfMissing quotingEnvironment ⟨[], [], 0⟩).2 =
      .ok quotingEnvironment.settingsFile := by
    decide +kernel
  have hwrite : writeDefaultIfMissing quotingEnvironment ⟨[], [], 0⟩ =
      (quotingFiles, .ok quotingEnvironment.settingsFile) :=
    Prod.mk.eta.symm.trans (by rw [hok, quotingFiles])
  obtain ⟨-, hload, -, -⟩ :=
    (load_of_writeDefaultIfMissing quotingEnvironment ⟨[], [], 0⟩).1 _ _ hmissing hwrite
  have hthere : quotingFiles.contains quotingEnvironment.settingsFile = true := by
    decide +kernel
  refine ⟨hload.trans ?_, (load_of_writeDefaultIfMissing quotingEnvironment quotingFiles).2 hthere⟩
  decide +kernel

end Courier.Settings
