/-
What is built is what boots: the guest's init on the disk that a rootfs build has packed.

Results:
- `resolvedImage_record`: the line that the build writes is read back by the init;
- `baked_boots`: over any boots of a machine with a disk from a build that returned, no container runs but one of the image that
  the build was for, and if its layers were saved for the build, nothing is pulled.
-/
import Beetroot.Build.Bake
import Beetroot.Vm.GuestBoot

namespace Beetroot.Vm.GuestInit

open Lib Lib.Prog Lib.Fs Lib.Shell Beetroot.Boot Beetroot.Build Beetroot.Build.Rootfs

variable {B D : Type}

def markerOf : Option (File B) → Option (List Char)
  | some ⟨.text t, _⟩ => some t
  | some _ => some []
  | none => none

/-- a machine with the files of a packed image, which has never run -/
def newMachine (read : Path → Option (File B)) (data : D) : Machine D where
  marker := markerOf (read ["etc", "beetroot", "redroid-image"])
  images := (imagesOf (read ["var", "lib", "docker"])).getD []
  container := none
  data _ := data
  clock := 0
  listening := false

/-- a reference to an image does not end with a newline -/
theorem resolvedImage_record (env : GuestEnv) (hvar : fallback (env.vars "REDROID_IMAGE") "" = "") {image : String}
    (hne : image ≠ "") (hlast : image.toList.getLast? ≠ some '\n') :
    resolvedImage env (some (image.toList ++ ['\n'])) = image := by
  have hcaptured : captured ((some (image.toList ++ ['\n'])).getD []) = image.toList := captured_line hlast
  have hfull : image.toList ≠ [] := fun hempty => hne (String.toList_eq_nil_iff.1 hempty)
  rw [resolvedImage, if_pos hvar, hcaptured, if_neg hfull, String.ofList_toList]

theorem nonempty_of_marked {cfg : RootfsConfig} {t : Site B} (h : Marked cfg t) : cfg.redroidImage ≠ "" := by
  obtain ⟨v, hv, -⟩ := h
  intro hempty
  rw [hempty] at hv
  have hnone : majorVersionFromImage "" = none := by decide
  rw [hnone] at hv
  cases hv

theorem baked_boots (host : Host B) (cfg : RootfsConfig) (s : Site B) (hempty : ∀ q, s.work.get? q = none)
    (hdaemon : s.daemon = false) (d : Choice B) (cs : List (Choice B))
    (hbuilt : ((build host.digest cfg).run.finish (Build.Rootfs.exec host) d cs s).1 = .ok ())
    (hlast : cfg.redroidImage.toList.getLast? ≠ some '\n') (env : GuestEnv)
    (hvar : fallback (env.vars "REDROID_IMAGE") "" = "") (data : D) (boots : List (List (Turn D))) :
    ∃ tree, ((build host.digest cfg).run.finish (Build.Rootfs.exec host) d cs s).2.image = some tree ∧
      let t := boots.foldl (boot env) (newMachine (packed tree) data)
      (∀ k, t.container = some k → k.running = true → k.image = cfg.redroidImage) ∧
        (cfg.redroidTar = none → t.images = [cfg.redroidImage]) := by
  have hspec := (runs_build (P := fun _ => True) host cfg hempty hdaemon).finish d trivial cs fun _ _ => trivial
  rw [hbuilt] at hspec
  rcases hspec with ⟨x, -, -, hmarked, tree, himage, htree⟩ | ⟨e, he, -⟩
  · refine ⟨tree, himage, ?_⟩
    obtain ⟨images, hloads, hroot⟩ := htree.images
    have hmarker : (newMachine (packed tree) data).marker = some (cfg.redroidImage.toList ++ ['\n']) := by
      rw [newMachine, htree.record]
      rfl
    have himages : (newMachine (packed tree) data).images = images := by
      rw [newMachine, hroot]
      rfl
    have hresolved : resolvedImage env (newMachine (packed tree) data).marker = cfg.redroidImage := by
      rw [hmarker]
      exact resolvedImage_record env hvar (nonempty_of_marked hmarked) hlast
    have hkept : Kept env (fun _ => True) (newMachine (packed tree) data) (boots.foldl (boot env) (newMachine (packed tree) data)) :=
      kept_boots (kept_off rfl trivial) fun _ _ _ _ _ _ => trivial
    refine ⟨fun k hk hrun => (hkept.running k hk hrun).1.trans hresolved, fun htar => ?_⟩
    have hsaved : images = [cfg.redroidImage] := by
      unfold Loads at hloads
      rw [htar] at hloads
      exact hloads
    have hlocal := hkept.images
    rw [hresolved, himages, hsaved] at hlocal
    exact hlocal List.mem_cons_self
  · cases he

theorem bareBuild_boots : ∃ tree,
    ((build bareHost.digest bareConfig).run.finish (Build.Rootfs.exec bareHost) allSucceeds [] emptySite).2.image = some tree ∧
      let t := [List.replicate 60 countingTurn, List.replicate 9 countingTurn].foldl (boot plainEnv) (newMachine (packed tree) 3)
      (∀ k, t.container = some k → k.running = true → k.image = "redroid/redroid:12.0.0-latest") ∧
        (bareConfig.redroidTar = none → t.images = ["redroid/redroid:12.0.0-latest"]) :=
  baked_boots bareHost bareConfig emptySite (fun _ => rfl) rfl allSucceeds [] rfl (by decide) plainEnv rfl 3 _

end Beetroot.Vm.GuestInit
