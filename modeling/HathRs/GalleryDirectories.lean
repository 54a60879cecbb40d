import HathRs.ClientSettings
import HathRs.GalleryDownload
import HathRs.GalleryRoundTrips
import HathRs.Paths

/-!
# The directories of galleries

A gallery is written to a directory of its own, named by its title and its number. A title is
what the server says, so the name is cut to a length and the directory is only taken where it
stands in the download directory. The number and the resolution can be read off every name, so
two galleries never write to one directory.
-/

namespace HathRs.GalleryDirectories
open TextParsing Paths FileIds GalleryListings

/-! ## Names of directories -/

def suffix (m : GalleryMetadata) : Text :=
  if m.minxres = "org".toList then " [".toList ++ decimal m.gid.toNat ++ "]".toList
  else " [".toList ++ decimal m.gid.toNat ++ "-".toList ++ m.minxres ++ "x]".toList

/-- The title, cut when it would make the name too long. -/
def shortTitle (max : ℕ) (m : GalleryMetadata) : Text :=
  if m.title.length + (suffix m).length > max then
    m.title.take (max - ((suffix m).length + 3)) ++ "...".toList
  else m.title

def primaryName (max : ℕ) (m : GalleryMetadata) : Text := shortTitle max m ++ suffix m

def fallbackName (m : GalleryMetadata) : Text :=
  if m.minxres = "org".toList then decimal m.gid.toNat
  else decimal m.gid.toNat ++ "-".toList ++ m.minxres ++ "x".toList

/-- `create_gallery_dir`, where `creates` are the paths that can be made directories. -/
def createGalleryDir (config : ClientSettings) (downloadDir : Text) (m : GalleryMetadata)
    (creates : Text → Bool) : Except String Text :=
  let primary := push downloadDir (primaryName config.maxFilenameLength.toNat m)
  let fallback := push downloadDir (fallbackName m)
  let taken := [primary, fallback].find? fun path =>
    (parent path).map components = some (components downloadDir) && creates path
  match taken with
  | some path => .ok path
  | none => .error "could not create gallery directory"

/-! ## Paths of files -/

def targetPath (galleryDir : Text) (file : GalleryFile) : Text := push galleryDir file.target

/-- `part_path` -/
def partPath (target : Text) : Except String Text :=
  match fileName target with
  | some filename => .ok (withFileName target (GalleryDownload.partPath filename))
  | none => .error "gallery target has no UTF-8 filename"

def infoPath (galleryDir : Text) : Text := push galleryDir "galleryinfo.txt".toList

/-! ## Names stay in their directory -/

section Confined

variable {m : GalleryMetadata}

theorem components_plainName {name : Text} (h : PlainName name) : components name = [.normal name] :=
  components_name h.1 h.2.1 h.2.2.1 h.2.2.2

theorem plainName_of_long {name : Text} (hlen : 2 < name.length) (hslash : '/' ∉ name) :
    PlainName name := by
  refine ⟨?_, hslash, ?_, ?_⟩ <;>
  · rintro rfl
    exact absurd hlen (by decide)

/-- Digits, and around a resolution a hyphen and a letter. -/
theorem mem_fallbackName (hm : WellFormed m) {c : Char} (h : c ∈ fallbackName m) :
    c.isDigit = true ∨ c = '-' ∨ c = 'x' := by
  rw [fallbackName] at h
  split_ifs at h with horg
  · exact .inl (isDigit_of_mem_decimal h)
  · simp only [List.mem_append] at h
    rcases h with ((hgid | hdash) | hxres) | hx
    · exact .inl (isDigit_of_mem_decimal hgid)
    · exact .inr (.inl (List.mem_singleton.mp hdash))
    · have hvalid := hm.minxres
      simp only [validXres, Bool.or_eq_true, beq_iff_eq, Bool.and_eq_true, List.all_eq_true] at hvalid
      exact .inl ((hvalid.resolve_left horg).2 c hxres)
    · exact .inr (.inr (List.mem_singleton.mp hx))

theorem notMem_fallbackName (hm : WellFormed m) {c : Char} (hdigit : c.isDigit = false)
    (hdash : c ≠ '-') (hx : c ≠ 'x') : c ∉ fallbackName m := by
  intro h
  rcases mem_fallbackName hm h with hd | hd | hd
  · rw [hd] at hdigit
    cases hdigit
  · exact hdash hd
  · exact hx hd

theorem suffix_eq (m : GalleryMetadata) :
    suffix m = " [".toList ++ fallbackName m ++ "]".toList := by
  rw [suffix, fallbackName]
  split_ifs
  · rfl
  · simp only [List.append_assoc]
    rfl

theorem plainName_fallbackName (hm : WellFormed m) : PlainName (fallbackName m) := by
  have hdot : '.' ∉ fallbackName m := notMem_fallbackName hm (by decide) (by decide) (by decide)
  refine ⟨?_, notMem_fallbackName hm (by decide) (by decide) (by decide), ?_, ?_⟩
  · rw [fallbackName]
    split_ifs
    · exact decimal_ne_nil _
    · simp
  · intro h
    rw [h] at hdot
    exact hdot (by decide)
  · intro h
    rw [h] at hdot
    exact hdot (by decide)

theorem slash_notMem_title (hm : WellFormed m) : '/' ∉ m.title := by
  intro h
  rw [← hm.title] at h
  rcases mem_sanitizeTitle h with heq | ⟨-, hfree⟩
  · exact absurd heq (by decide)
  · exact absurd hfree (by decide)

theorem plainName_primaryName (hm : WellFormed m) (max : ℕ) : PlainName (primaryName max m) := by
  have htitle := slash_notMem_title hm
  have hshort : '/' ∉ shortTitle max m := by
    rw [shortTitle]
    split_ifs
    · intro h
      rcases List.mem_append.mp h with hfront | hdots
      · exact htitle (List.mem_of_mem_take hfront)
      · exact absurd hdots (by decide)
    · exact htitle
  refine plainName_of_long ?_ ?_
  · rw [primaryName, suffix_eq]
    simp only [List.length_append]
    have : " [".toList.length = 2 := rfl
    have : "]".toList.length = 1 := rfl
    omega
  · rw [primaryName, suffix_eq]
    simp only [List.mem_append, not_or]
    exact ⟨hshort, ⟨by decide, notMem_fallbackName hm (by decide) (by decide) (by decide)⟩, by decide⟩

/-- The first name whose directory can be made is taken, and both names pass the check. -/
theorem createGalleryDir_eq (hm : WellFormed m) (config : ClientSettings) (downloadDir : Text)
    (creates : Text → Bool) : createGalleryDir config downloadDir m creates =
      let primary := push downloadDir (primaryName config.maxFilenameLength.toNat m)
      let fallback := push downloadDir (fallbackName m)
      if creates primary then .ok primary
      else if creates fallback then .ok fallback
      else .error "could not create gallery directory" := by
  have hcheck : ∀ {name : Text}, PlainName name →
      (parent (push downloadDir name)).map components = some (components downloadDir) := by
    intro name hname
    obtain ⟨q, hparent, hq⟩ := parent_push downloadDir (components_plainName hname)
    rw [hparent, Option.map_some, hq]
  simp only [createGalleryDir, List.find?_cons, hcheck (plainName_primaryName hm _),
    hcheck (plainName_fallbackName hm), decide_true, Bool.true_and, List.find?_nil]
  cases creates (push downloadDir (primaryName config.maxFilenameLength.toNat m)) with
  | true => rfl
  | false =>
    cases creates (push downloadDir (fallbackName m)) with
    | true => rfl
    | false => rfl

theorem createGalleryDir_cases (hm : WellFormed m) {config : ClientSettings} {downloadDir path : Text}
    {creates : Text → Bool} (h : createGalleryDir config downloadDir m creates = .ok path) :
    ∃ name, PlainName name ∧ path = push downloadDir name ∧
      (name = primaryName config.maxFilenameLength.toNat m ∨ name = fallbackName m) := by
  rw [createGalleryDir_eq hm] at h
  simp only at h
  split_ifs at h
  · cases h
    exact ⟨_, plainName_primaryName hm _, rfl, .inl rfl⟩
  · cases h
    exact ⟨_, plainName_fallbackName hm, rfl, .inr rfl⟩

theorem child_push_plainName {dir name : Text} (h : PlainName name) : Child dir (push dir name) :=
  child_push (components_plainName h)

theorem plainName_partPath {name : Text} (h : PlainName name) :
    PlainName (GalleryDownload.partPath name) := by
  have hpart : ".part".toList.length = 5 := rfl
  refine plainName_of_long ?_ ?_
  · rw [GalleryDownload.partPath, List.length_cons, List.length_append, hpart]
    omega
  · rw [GalleryDownload.partPath, List.mem_cons, List.mem_append, not_or, not_or]
    exact ⟨by decide, h.2.1, by decide⟩

/-- The part file stands beside its target, under the name that the download gives it. -/
theorem partPath_push (dir : Text) {name : Text} (h : PlainName name) :
    ∃ part, partPath (push dir name) = .ok part ∧
      components part = components dir ++ [Component.normal (GalleryDownload.partPath name)] := by
  have hname := components_plainName h
  refine ⟨withFileName (push dir name) (GalleryDownload.partPath name), ?_,
    components_withFileName hname (components_plainName (plainName_partPath h))⟩
  rw [partPath, fileName_push hname]

end Confined

/-! ## Two galleries have no name in common -/

section Apart

variable {m₁ m₂ : GalleryMetadata}

/-- The name ends where the last separator stands. -/
theorem eq_of_append_sep {front₁ front₂ back₁ back₂ : Text} {sep : Char} (h₁ : sep ∉ back₁)
    (h₂ : sep ∉ back₂) (h : front₁ ++ sep :: back₁ = front₂ ++ sep :: back₂) : back₁ = back₂ := by
  have hreverse := congrArg (fun t => splitOnce sep t.reverse) h
  simp only [List.reverse_append, List.reverse_cons, List.append_assoc, List.singleton_append] at hreverse
  rw [splitOnce_append (by simpa using h₁), splitOnce_append (by simpa using h₂)] at hreverse
  exact List.reverse_injective (Prod.mk.inj (Option.some.inj hreverse)).1

theorem splitOnce_fallbackName (m : GalleryMetadata) : splitOnce '-' (fallbackName m) =
    if m.minxres = "org".toList then none
    else some (decimal m.gid.toNat, m.minxres ++ "x".toList) := by
  have hdash : '-' ∉ decimal m.gid.toNat := fun h => ne_of_mem_decimal h (by decide) rfl
  rw [fallbackName]
  split_ifs with horg
  · exact splitOnce_eq_none hdash
  · rw [List.append_assoc, List.append_assoc]
    exact splitOnce_append hdash _

/-- The number and the resolution can be read off the name. -/
theorem fallbackName_inj (h : fallbackName m₁ = fallbackName m₂) :
    m₁.gid = m₂.gid ∧ m₁.minxres = m₂.minxres := by
  have hsplit := congrArg (splitOnce '-') h
  rw [splitOnce_fallbackName, splitOnce_fallbackName] at hsplit
  split_ifs at hsplit with h₁ h₂ h₂
  · rw [fallbackName, fallbackName, if_pos h₁, if_pos h₂] at h
    exact ⟨decimal_size_inj h, h₁.trans h₂.symm⟩
  · obtain ⟨hfront, hback⟩ := Prod.mk.inj (Option.some.inj hsplit)
    exact ⟨decimal_size_inj hfront, List.append_cancel_right hback⟩

theorem primaryName_eq (max : ℕ) (m : GalleryMetadata) : primaryName max m =
    (shortTitle max m ++ [' ']) ++ '[' :: (fallbackName m ++ [']']) := by
  rw [primaryName, suffix_eq]
  simp

theorem bracket_notMem (hm : WellFormed m₁) : '[' ∉ fallbackName m₁ ++ [']'] := by
  rw [List.mem_append, not_or]
  exact ⟨notMem_fallbackName hm (by decide) (by decide) (by decide), by decide⟩

theorem fallbackName_of_primaryName (h₁ : WellFormed m₁) (h₂ : WellFormed m₂) {max₁ max₂ : ℕ}
    (h : primaryName max₁ m₁ = primaryName max₂ m₂) : fallbackName m₁ = fallbackName m₂ := by
  rw [primaryName_eq, primaryName_eq] at h
  exact List.append_cancel_right (eq_of_append_sep (bracket_notMem h₁) (bracket_notMem h₂) h)

theorem primaryName_ne_fallbackName (hm : WellFormed m₂) (max : ℕ) :
    primaryName max m₁ ≠ fallbackName m₂ := by
  intro h
  have hout : ']' ∉ fallbackName m₂ := notMem_fallbackName hm (by decide) (by decide) (by decide)
  refine hout ?_
  rw [← h, primaryName_eq]
  simp

end Apart

/-- The names that the directory of the gallery can have. -/
def DirectoryNames (m : GalleryMetadata) : Set Text :=
  {name | ∃ config downloadDir creates path, createGalleryDir config downloadDir m creates = .ok path ∧
    fileName path = some name}

theorem mem_directoryNames {m : GalleryMetadata} (hm : WellFormed m) {name : Text}
    (h : name ∈ DirectoryNames m) : (∃ max, name = primaryName max m) ∨ name = fallbackName m := by
  obtain ⟨config, downloadDir, creates, path, hpath, hname⟩ := h
  obtain ⟨given, hplain, rfl, hcases⟩ := createGalleryDir_cases hm hpath
  rw [fileName_push (components_plainName hplain)] at hname
  cases hname
  exact hcases.imp_left fun heq => ⟨_, heq⟩

theorem disjoint_directoryNames {m₁ m₂ : GalleryMetadata} (h₁ : WellFormed m₁) (h₂ : WellFormed m₂)
    (hne : (m₁.gid, m₁.minxres) ≠ (m₂.gid, m₂.minxres)) :
    Disjoint (DirectoryNames m₁) (DirectoryNames m₂) := by
  have hfallback : fallbackName m₁ ≠ fallbackName m₂ := by
    intro h
    obtain ⟨hgid, hminxres⟩ := fallbackName_inj h
    exact hne (by rw [hgid, hminxres])
  rw [Set.disjoint_left]
  intro name hname₁ hname₂
  rcases mem_directoryNames h₁ hname₁ with ⟨max₁, rfl⟩ | rfl
  · rcases mem_directoryNames h₂ hname₂ with ⟨max₂, heq⟩ | heq
    · exact hfallback (fallbackName_of_primaryName h₁ h₂ heq)
    · exact primaryName_ne_fallbackName h₂ max₁ heq
  · rcases mem_directoryNames h₂ hname₂ with ⟨max₂, heq⟩ | heq
    · exact primaryName_ne_fallbackName h₁ max₂ heq.symm
    · exact hfallback heq

/-- Whatever the server says, a gallery is written to files of a directory in the download
directory, and to a directory that no other gallery is given. -/
theorem writes_confined_and_directories_apart :
    (∀ (raw : Text) (m : GalleryMetadata), parseGalleryMetadata raw = .ok m →
      ∀ (config : ClientSettings) (downloadDir : Text) (creates : Text → Bool) (path : Text),
        createGalleryDir config downloadDir m creates = .ok path →
        Child downloadDir path ∧ Child path (infoPath path) ∧
        ∀ f ∈ m.files, Child path (targetPath path f) ∧
          ∃ part, partPath (targetPath path f) = .ok part ∧ Child path part) ∧
    ∀ (raw₁ raw₂ : Text) (m₁ m₂ : GalleryMetadata), parseGalleryMetadata raw₁ = .ok m₁ →
      parseGalleryMetadata raw₂ = .ok m₂ → (m₁.gid, m₁.minxres) ≠ (m₂.gid, m₂.minxres) →
      Disjoint (DirectoryNames m₁) (DirectoryNames m₂) := by
  refine ⟨fun raw m hraw config downloadDir creates path hpath => ?_,
    fun raw₁ raw₂ m₁ m₂ hraw₁ hraw₂ hne => ?_⟩
  · obtain ⟨name, hplain, rfl, -⟩ := createGalleryDir_cases (wellFormed_of_parse hraw).1 hpath
    refine ⟨child_push_plainName hplain,
      child_push_plainName (plainName_of_long (by decide) (by decide)), fun f hf => ?_⟩
    have htarget := (accepted_names hraw).1 f hf
    obtain ⟨part, hpart, hcomponents⟩ := partPath_push (push downloadDir name) htarget
    exact ⟨child_push_plainName htarget, part, hpart, _, hcomponents⟩
  · exact disjoint_directoryNames (wellFormed_of_parse hraw₁).1 (wellFormed_of_parse hraw₂).1 hne

/-- Another gallery whose title ends like a name of the first one. -/
def imitator : GalleryMetadata := { twoPages with gid := 8, title := "Two pages [7-780x]".toList }

theorem wellFormed_imitator : WellFormed imitator where
  gid := by decide
  minxres := wellFormed_twoPages.minxres
  title := by decide
  count := wellFormed_twoPages.count
  pages := wellFormed_twoPages.pages
  safe := wellFormed_twoPages.safe
  distinct := wellFormed_twoPages.distinct

/-- The text of a gallery with its lines in their order. -/
def plainText (m : GalleryMetadata) : Text :=
  render (headerLines m) (m.files.map fileLine) m.information

theorem plainText_twoPages : parseGalleryMetadata (plainText twoPages) = .ok twoPages :=
  parse_render wellFormed_twoPages renderable_twoPages (List.Perm.refl (headerLines twoPages))
    (List.Perm.refl (twoPages.files.map fileLine)) rfl

theorem plainText_imitator : parseGalleryMetadata (plainText imitator) = .ok imitator :=
  parse_render wellFormed_imitator renderable_twoPages (List.Perm.refl (headerLines imitator))
    (List.Perm.refl (imitator.files.map fileLine)) rfl

theorem twoPages_confined_apart :
    Child "downloads".toList "downloads/Two pages [7-780x]".toList ∧
    Disjoint (DirectoryNames twoPages) (DirectoryNames imitator) := by
  have hdir : createGalleryDir (.load ⟨none, none⟩) "downloads".toList twoPages (fun _ => true) =
      .ok "downloads/Two pages [7-780x]".toList := by
    rw [createGalleryDir_eq wellFormed_twoPages]
    rfl
  have hconfined := writes_confined_and_directories_apart.1 _ _ plainText_twoPages _ _ _ _ hdir
  refine ⟨hconfined.1, writes_confined_and_directories_apart.2 _ _ _ _ plainText_twoPages
    plainText_imitator ?_⟩
  decide

end HathRs.GalleryDirectories
