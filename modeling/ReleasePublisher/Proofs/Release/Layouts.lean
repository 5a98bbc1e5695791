import ReleasePublisher.Proofs.Files.Children
import ReleasePublisher.Proofs.Release.ArchiveSize
import ReleasePublisher.Proofs.Release.Resolve

/-!
# Layouts and their directories

The names of a layout are joined from texts of which only the project is checked. A slash in the platform
makes several components of what is meant to be one name: the archive is then written to a directory inside
the output directory, or elsewhere, and its name is not the last component of its path.

## Main definitions

* `Layout.StaysInside c`: binary and archive are children of their directories, and the entry has two
  components
* `PackagedArchive.StaysIn a c t`: the archive stands in the output directory under its name

## Main results

* `Layout.source_isChildOf`: the binary always is a child of the build directory
* `Layout.staysInside_iff`: a layout stays inside exactly if the platform has no slash
* `package_staysIn`: then the archive stands in the output directory
* `layout_staysInside_iff`: both, for a configuration that was resolved
-/

namespace ReleasePublisher

open FileTree

variable {c : Config}

/-- A text with a slash has one in its bytes. -/
theorem slash_mem_encode {s : String} (h : '/' ∈ s.toList) : Path.slash ∈ Utf8.encode s :=
  List.mem_flatMap.mpr ⟨'/', h, by decide⟩

/-! ### Layouts -/

namespace Layout

/-- **The layout stays inside its directories**: the binary is a child of the build directory, the archive
one of the output directory, and the entry has two components, the directory in the archive and the
project. -/
structure StaysInside (c : Config) : Prop where
  source : (ofConfig c).source.IsChildOf c.buildDir (Utf8.encode c.project)
  output : (ofConfig c).output.IsChildOf c.outputDir (Utf8.encode (ofConfig c).archiveName)
  entry : (ofConfig c).entry.components =
    [.name (Utf8.encode (ofConfig c).baseDir), .name (Utf8.encode c.project)]

/-- **The binary** is a child of the build directory. -/
theorem source_isChildOf (hproject : projectFault? c.project = none) :
    (ofConfig c).source.IsChildOf c.buildDir (Utf8.encode c.project) :=
  Path.join_isChildOf c.buildDir (isName_project hproject)

/-- **The name of the archive** is one component of a path. -/
theorem isName_archiveName (hproject : projectFault? c.project = none)
    (hplatform : '/' ∉ c.platform.toList) : Path.IsName (Utf8.encode (ofConfig c).archiveName) := by
  have hbase := isName_baseDir hproject hplatform
  have hname : Utf8.encode (ofConfig c).archiveName =
      Utf8.encode (ofConfig c).baseDir ++ Utf8.encode ".tar.gz" := Utf8.encode_append _ _
  rw [hname]
  apply Path.isName_of_hyphen
  · rw [encode_baseDir, List.append_assoc]
    exact List.mem_append_right _ List.mem_cons_self
  · rw [List.mem_append, not_or]
    exact ⟨hbase.no_slash, by decide⟩

theorem slash_mem_archiveName (hplatform : '/' ∈ c.platform.toList) :
    Path.slash ∈ Utf8.encode (ofConfig c).archiveName := by
  have hbase : Path.slash ∈ Utf8.encode (ofConfig c).baseDir := by
    rw [encode_baseDir]
    exact List.mem_append_right _ (List.mem_cons_of_mem _ (slash_mem_encode hplatform))
  exact Utf8.encode_append (ofConfig c).baseDir ".tar.gz" ▸ List.mem_append_left _ hbase

/-- **A layout stays inside its directories** exactly if the platform has no slash. -/
theorem staysInside_iff (hproject : projectFault? c.project = none) :
    StaysInside c ↔ '/' ∉ c.platform.toList := by
  constructor
  · intro h hplatform
    exact h.output.no_slash (slash_mem_archiveName hplatform)
  · intro hplatform
    refine ⟨source_isChildOf hproject,
      Path.join_isChildOf c.outputDir (isName_archiveName hproject hplatform), ?_⟩
    rw [entry_eq hproject hplatform]
    exact Path.components_pair (isName_baseDir hproject hplatform) (isName_project hproject)

end Layout

/-! ### Archives -/

/-- **The archive stands in the output directory**: its name is the last component of its path, and the
directory holds it under that name, possibly behind a link. -/
structure PackagedArchive.StaysIn (a : PackagedArchive) (c : Config) (t : FileTree) : Prop where
  path : a.path.IsChildOf c.outputDir (Utf8.encode a.fileName)
  fileName : a.path.fileName? = some (Utf8.encode a.fileName)
  written : ∃ directory data, t.HasDirectory c.outputDir directory ∧ t.read a.path = .ok data ∧
    (t.dataAt (directory ++ [Utf8.encode a.fileName]) = some data ∨
      ∃ target, t.lookup (directory ++ [Utf8.encode a.fileName]) = some (.link target))

/-- **An archive that was packed stands in the output directory**, if the platform has no slash. -/
theorem package_staysIn [Gzip.Writer] {s s' : Surroundings} {a : PackagedArchive}
    (hproject : projectFault? c.project = none) (hplatform : '/' ∉ c.platform.toList)
    (h : package c s = (.ok a, s')) : a.StaysIn c s'.files := by
  have hpacks := package_ok h
  have hname : Path.IsName (Utf8.encode a.fileName) := by
    rw [hpacks.told]
    exact Layout.isName_archiveName hproject hplatform
  have hpath : a.path = c.outputDir.join ⟨Utf8.encode a.fileName⟩ := by
    rw [hpacks.told]
    rfl
  have hchild : a.path.IsChildOf c.outputDir (Utf8.encode a.fileName) :=
    hpath ▸ Path.join_isChildOf c.outputDir hname
  obtain ⟨-, -, out, -, g, -, -, -, hfind, hread, -, -⟩ := hpacks.exists_output
  obtain ⟨directory, hdirectory, hlast⟩ := hasDirectory_of_find_join hname (hpath ▸ hfind)
  refine ⟨hchild, hchild.fileName?_eq, directory, g.data, hdirectory, hread, ?_⟩
  rcases hlast with hlast | hlink
  · exact .inl (hlast ▸ dataAt_of_lookup (lookup_of_find hfind))
  · exact .inr hlink

/-- **For a configuration that was resolved**, the layout stays inside its directories, and every archive
that is packed stands in the output directory under its name, exactly if the platform has no slash. -/
theorem layout_staysInside_iff [Gzip.Writer] {t : FileTree} {root : Path} {overrides : Overrides}
    {env : Environment} (h : resolve t root overrides env = .ok c) :
    (Layout.StaysInside c ∧
        ∀ s a s', package c s = (.ok a, s') → a.StaysIn c s'.files) ↔
      '/' ∉ c.platform.toList := by
  have hproject := projectFault?_of_resolve h
  constructor
  · intro hinside
    exact (Layout.staysInside_iff hproject).mp hinside.1
  · intro hplatform
    exact ⟨(Layout.staysInside_iff hproject).mpr hplatform,
      fun s a s' hpackage => package_staysIn hproject hplatform hpackage⟩

/-- The sample binary is packed into the working directory. -/
theorem layout_staysInside_iff_sample :
    resolve (Sample.hazardous 0o755 0o644).files (.ofText "/w") (Sample.overrides "p") (fun _ => none) =
        .ok (Sample.packed "p") ∧
      Layout.StaysInside (Sample.packed "p") ∧
      ∃ a s', package (Sample.packed "p") (Sample.hazardous 0o755 0o644) = (.ok a, s') ∧
        a.StaysIn (Sample.packed "p") s'.files := by
  have hresolve : resolve (Sample.hazardous 0o755 0o644).files (.ofText "/w") (Sample.overrides "p")
      (fun _ => none) = .ok (Sample.packed "p") := by
    decide +kernel
  obtain ⟨hinside, hstays⟩ := (layout_staysInside_iff hresolve).mpr (by decide)
  have hok : (package (Sample.packed "p") (Sample.hazardous 0o755 0o644)).1.isOk = true := by
    decide +kernel
  rcases h : package (Sample.packed "p") (Sample.hazardous 0o755 0o644) with ⟨e | a, s'⟩
  · rw [h] at hok
    cases hok
  · exact ⟨hresolve, hinside, a, s', rfl, hstays _ a s' h⟩

/-- **A platform with a slash leads out of the output directory.** The configuration is resolved and the
binary packed: the archive `a-p/q.tar.gz` is the file `q.tar.gz` in the directory `a-p`, and the entry has
three components. -/
theorem slash_in_platform_leaves_output :
    ∃ c, resolve (Sample.hazardous 0o755 0o644).files (.ofText "/w") (Sample.overrides "p/q")
        (fun _ => none) = .ok c ∧
      ¬ Layout.StaysInside c ∧ (Layout.ofConfig c).entry.components.length = 3 ∧
      ∃ a s', package c (Sample.hazardous 0o755 0o644) = (.ok a, s') ∧ a.fileName = "a-p/q.tar.gz" ∧
        a.path.fileName? = some (Utf8.encode "q.tar.gz") ∧
        ¬ a.path.IsChildOf c.outputDir (Utf8.encode a.fileName) := by
  refine ⟨Sample.packed "p/q", by decide +kernel, fun h => ?_, by decide +kernel, ?_⟩
  · exact h.output.no_slash (by decide +kernel)
  have hok : (package (Sample.packed "p/q") (Sample.hazardous 0o755 0o644)).1.isOk = true := by
    decide +kernel
  rcases h : package (Sample.packed "p/q") (Sample.hazardous 0o755 0o644) with ⟨e | a, s'⟩
  · rw [h] at hok
    cases hok
  have hname : a.fileName = "a-p/q.tar.gz" := by
    rw [(package_ok h).told]
    exact (by decide +kernel : (Layout.ofConfig (Sample.packed "p/q")).archiveName = "a-p/q.tar.gz")
  have hpath : a.path = (Layout.ofConfig (Sample.packed "p/q")).output := by rw [(package_ok h).told]
  refine ⟨a, s', rfl, hname, ?_, fun hchild => ?_⟩
  · rw [hpath]
    decide +kernel
  · rw [hname] at hchild
    exact hchild.no_slash (by decide +kernel)

end ReleasePublisher
