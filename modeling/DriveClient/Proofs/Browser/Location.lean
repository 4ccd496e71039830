import DriveClient.Browser
import DriveClient.Proofs.Text.PathCode

/-!
# Paths in the address bar

A path goes into the address bar in percent code, segment by segment, and is decoded from there as a
whole. Nothing is lost on the way (`locationPath_of_pathname`): no escape is taken for a slash, and
the code is never so faulty that it would be shown as it stands.
-/

namespace DriveClient.Browser

/-- A browser that shows the code of a path has that path. -/
theorem locationPath_of_pathname {browser : Browser} {path : String}
    (hwindow : browser.hasWindow = true) (hpathname : browser.hasPathname = true)
    (h : browser.pathname = Percent.encodePath path) : browser.locationPath = path := by
  have hraw :
      (if (browser.hasWindow && browser.hasPathname) = true then browser.pathname else "/") =
        Percent.encodePath path := by
    rw [hwindow, hpathname, h]
    rfl
  simp only [locationPath, hraw]
  rw [Percent.decode?_encodePath, Option.getD_some]

/-- A path that is added to the history comes into the address bar. -/
theorem locationPath_push {browser : Browser} (hwindow : browser.hasWindow = true)
    (hhistory : browser.hasHistory = true) (hpathname : browser.hasPathname = true)
    (path : String) : (browser.push path).locationPath = path := by
  have hkept : (browser.hasWindow && browser.hasHistory) = true := by
    rw [hwindow, hhistory]
    rfl
  rw [push, if_pos hkept]
  exact locationPath_of_pathname hwindow hpathname rfl

/-- **The code of paths.** A browser that shows the code of a path has exactly that path, since the
code is decoded and not taken as it stands. The code has as many slashes as the path, and besides
them only unreserved characters and escapes. And it is put together from the codes on both sides of
a slash. -/
theorem path_code_faithful (path : String) :
    (∀ browser : Browser, browser.hasWindow = true → browser.hasPathname = true →
      browser.pathname = Percent.encodePath path → browser.locationPath = path) ∧
    Percent.decode? (Percent.encodePath path) = some path ∧
    (Percent.encodePath path).toList.count '/' = path.toList.count '/' ∧
    Percent.IsCode (Percent.encodePath path).toList ∧
    ∀ rest, Percent.encodePath (path ++ "/" ++ rest) =
      Percent.encodePath path ++ "/" ++ Percent.encodePath rest :=
  ⟨fun _ hwindow hpathname h => locationPath_of_pathname hwindow hpathname h,
    Percent.decode?_encodePath path, Percent.count_slash_encodePath path,
    Percent.isCode_encodePath path, Percent.encodePath_append_slash path⟩

/-- A path whose names have what looks like an escaped slash and an escaped percent sign, a control
character, and a character of four bytes. -/
theorem path_code_faithful_escapes :
    let path := "/a%2Fb/100%25 \n/😀#?"
    let url := "/a%252Fb/100%2525%20%0A/%F0%9F%98%80%23%3F"
    (fresh url).pathname = Percent.encodePath path ∧ (fresh url).locationPath = path := by
  intro path url
  have hcode : (fresh url).pathname = Percent.encodePath path := by decide +kernel
  exact ⟨hcode, (path_code_faithful path).1 (fresh url) rfl rfl hcode⟩

end DriveClient.Browser
