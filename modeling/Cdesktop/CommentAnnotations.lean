import Cdesktop.SigningStrings

/-! The comments that stand beside the lines of the displayed files. -/

namespace Cdesktop.CommentAnnotations
set_option autoImplicit true

inductive DiffSide where
  | old | new

inductive AnnotationSide where
  | deletions | additions

structure ReviewComment where
  id : String
  filePath : String
  lineNumber : Int
  side : DiffSide

structure NormalizedGitHubComment where
  id : String
  filePath : String
  lineNumber : Int
  side : DiffSide

inductive CommentAnnotation where
  | review (comment : ReviewComment)
  | github (comment : NormalizedGitHubComment)

structure DiffLineAnnotation where
  side : AnnotationSide
  lineNumber : Int
  metadata : CommentAnnotation

def mapSideToAnnotationSide : DiffSide → AnnotationSide
  | .old => .deletions
  | .new => .additions

def DiffSide.number : DiffSide → String
  | .old => "0"
  | .new => "1"

def createCommentKey (filePath : String) (lineNumber : Int) (side : DiffSide) : String :=
  Fields.join ':' [filePath, lineNumber.repr, side.number]

def ReviewComment.annotate (comment : ReviewComment) : DiffLineAnnotation :=
  { side := mapSideToAnnotationSide comment.side
    lineNumber := comment.lineNumber
    metadata := .review comment }

def NormalizedGitHubComment.annotate (comment : NormalizedGitHubComment) : DiffLineAnnotation :=
  { side := mapSideToAnnotationSide comment.side
    lineNumber := comment.lineNumber
    metadata := .github comment }

/-- `filePath.endsWith('/' + path)` -/
def Ends (path filePath : String) : Prop := '/' :: path.toList <:+ filePath.toList

instance : Decidable (Ends path filePath) := inferInstanceAs (Decidable (_ <:+ _))

/-- One turn of the first loop: the annotations, and the keys that are occupied. -/
def addReview (filePath : String) (found : List DiffLineAnnotation × List String)
    (comment : ReviewComment) : List DiffLineAnnotation × List String :=
  if comment.filePath ≠ filePath then found
  else
    (found.1 ++ [comment.annotate],
      createCommentKey comment.filePath comment.lineNumber comment.side :: found.2)

def addGitHub (filePath : String) (occupiedKeys : List String)
    (annotations : List DiffLineAnnotation) (comment : NormalizedGitHubComment) :
    List DiffLineAnnotation :=
  if ¬ (comment.filePath = filePath ∨ Ends comment.filePath filePath) then annotations
  else if createCommentKey comment.filePath comment.lineNumber comment.side ∈ occupiedKeys then
    annotations
  else annotations ++ [comment.annotate]

def transformCommentsToAnnotations (comments : List ReviewComment)
    (githubComments : List NormalizedGitHubComment) (filePath : String) :
    List DiffLineAnnotation :=
  let (annotations, occupiedKeys) := comments.foldl (addReview filePath) ([], [])
  githubComments.foldl (addGitHub filePath occupiedKeys) annotations

/-- What is annotated over all displayed files, each annotation with its file. -/
def annotated (comments : List ReviewComment) (githubComments : List NormalizedGitHubComment)
    (files : List String) : List (String × DiffLineAnnotation) :=
  files.flatMap fun filePath =>
    (transformCommentsToAnnotations comments githubComments filePath).map (Prod.mk filePath)

def DiffLineAnnotation.isReview (note : DiffLineAnnotation) : Bool :=
  match note.metadata with
  | .review _ => true
  | .github _ => false

/-- What the annotations are for: a review comment is shown once, where it belongs, a GitHub comment
on one file at most, and not where a review comment is. -/
structure Proper (comments : List ReviewComment) (githubComments : List NormalizedGitHubComment)
    (files : List String) : Prop where
  review : ((annotated comments githubComments files).filter fun shown => shown.2.isReview).Perm
    ((comments.filter fun comment => comment.filePath ∈ files).map fun comment =>
      (comment.filePath, comment.annotate))
  github : ∀ shown ∈ annotated comments githubComments files,
    ∀ shown' ∈ annotated comments githubComments files, ∀ comment,
      shown.2.metadata = .github comment → shown'.2.metadata = .github comment →
        shown.1 = shown'.1
  free : ∀ shown ∈ annotated comments githubComments files, ∀ comment ∈ comments,
    shown.2.isReview = false → ¬ (shown.1 = comment.filePath ∧
      shown.2.lineNumber = comment.lineNumber ∧
      shown.2.side = mapSideToAnnotationSide comment.side)

/-- No review comment is on the line of the file, at that side. -/
def Clear (comments : List ReviewComment) (filePath : String) (lineNumber : Int)
    (side : DiffSide) : Prop :=
  ∀ comment ∈ comments,
    ¬ (comment.filePath = filePath ∧ comment.lineNumber = lineNumber ∧ comment.side = side)

theorem mapSide_inj (h : mapSideToAnnotationSide side = mapSideToAnnotationSide side') :
    side = side' := by
  cases side <;> cases side' <;> first | rfl | cases h

theorem number_free (side : DiffSide) : Fields.Free ':' side.number := by
  cases side <;> (rw [Fields.Free]; decide)

theorem number_inj (h : DiffSide.number side = side'.number) : side = side' := by
  cases side <;> cases side' <;> first | rfl | exact absurd h (by decide)

theorem createCommentKey_inj
    (h : createCommentKey path line side = createCommentKey path' line' side') :
    path = path' ∧ line = line' ∧ side = side' := by
  have hfree : ∀ line : Int, Fields.Free ':' line.repr :=
    fun line => Fields.free_intRepr (by decide) (by decide) line
  change Fields.join ':' (path :: [line.repr] ++ [side.number]) =
    Fields.join ':' (path' :: [line'.repr] ++ [side'.number]) at h
  obtain ⟨hfront, hside⟩ := Fields.join_concat_inj (number_free side) (number_free side') h
  change Fields.join ':' (path :: [] ++ [line.repr]) =
    Fields.join ':' (path' :: [] ++ [line'.repr]) at hfront
  obtain ⟨hpath, hline⟩ := Fields.join_concat_inj (hfree line) (hfree line') hfront
  exact ⟨hpath, SigningStrings.int_repr_inj hline, number_inj hside⟩

theorem not_ends_self (path : String) : ¬ Ends path path := fun h => by
  have hlength := h.length_le
  rw [List.length_cons] at hlength
  omega

theorem foldl_addReview (filePath : String) (comments : List ReviewComment)
    (found : List DiffLineAnnotation × List String) :
    (comments.foldl (addReview filePath) found).1 =
        found.1 ++ (comments.filter (·.filePath = filePath)).map ReviewComment.annotate ∧
      ∀ key, key ∈ (comments.foldl (addReview filePath) found).2 ↔
        (∃ comment ∈ comments, comment.filePath = filePath ∧
          key = createCommentKey filePath comment.lineNumber comment.side) ∨ key ∈ found.2 := by
  induction comments generalizing found with
  | nil => simp
  | cons comment comments ih =>
    rw [List.foldl_cons, List.filter_cons, addReview]
    by_cases hpath : comment.filePath = filePath
    · rw [if_neg (not_not_intro hpath), if_pos (decide_eq_true hpath)]
      obtain ⟨hfound, hkeys⟩ := ih (found.1 ++ [comment.annotate],
        createCommentKey comment.filePath comment.lineNumber comment.side :: found.2)
      refine ⟨by rw [hfound, List.append_assoc]; rfl, fun key => ?_⟩
      rw [hkeys, List.mem_cons, List.exists_mem_cons_iff, hpath]
      simp only [true_and, or_left_comm, or_assoc]
    · rw [if_pos hpath, if_neg (by simpa using hpath)]
      refine ⟨(ih found).1, fun key => ?_⟩
      rw [(ih found).2, List.exists_mem_cons_iff]
      simp only [hpath, false_and, false_or]

/-- The key of a GitHub comment is occupied only on the file that it names. -/
def Shows (comments : List ReviewComment) (filePath : String)
    (comment : NormalizedGitHubComment) : Prop :=
  Ends comment.filePath filePath ∨ comment.filePath = filePath ∧
    Clear comments filePath comment.lineNumber comment.side

theorem foldl_addGitHub (filePath : String) (keys : List String)
    (githubComments : List NormalizedGitHubComment) (found : List DiffLineAnnotation) :
    ∃ shown : List NormalizedGitHubComment,
      githubComments.foldl (addGitHub filePath keys) found =
        found ++ shown.map NormalizedGitHubComment.annotate ∧
      ∀ comment, comment ∈ shown ↔ comment ∈ githubComments ∧
        (comment.filePath = filePath ∨ Ends comment.filePath filePath) ∧
        createCommentKey comment.filePath comment.lineNumber comment.side ∉ keys := by
  refine ⟨githubComments.filter fun comment =>
    (comment.filePath = filePath ∨ Ends comment.filePath filePath) ∧
      createCommentKey comment.filePath comment.lineNumber comment.side ∉ keys, ?_, fun comment => ?_⟩
  · induction githubComments generalizing found with
    | nil => simp
    | cons comment comments ih =>
      rw [List.foldl_cons, ih, addGitHub, List.filter_cons]
      split_ifs with hpath hkey <;> simp_all
  · rw [List.mem_filter, decide_eq_true_iff]

theorem transform_shows (comments : List ReviewComment)
    (githubComments : List NormalizedGitHubComment) (filePath : String) :
    ∃ shown : List NormalizedGitHubComment,
      transformCommentsToAnnotations comments githubComments filePath =
        (comments.filter (·.filePath = filePath)).map ReviewComment.annotate ++
          shown.map NormalizedGitHubComment.annotate ∧
      ∀ comment, comment ∈ shown ↔ comment ∈ githubComments ∧ Shows comments filePath comment := by
  obtain ⟨hreviews, hkeys⟩ := foldl_addReview filePath comments ([], [])
  obtain ⟨shown, hshown, hmem⟩ := foldl_addGitHub filePath
    (comments.foldl (addReview filePath) ([], [])).2 githubComments
    (comments.foldl (addReview filePath) ([], [])).1
  refine ⟨shown, hshown.trans (by rw [hreviews, List.nil_append]), fun comment => ?_⟩
  rw [hmem, hkeys]
  refine and_congr_right fun _ => ?_
  constructor
  · rintro ⟨hpath | hends, hfree⟩
    · refine .inr ⟨hpath, fun review hreview ⟨hfile, hline, hside⟩ => hfree (.inl ?_)⟩
      exact ⟨review, hreview, hfile, by rw [hpath, hline, hside]⟩
    · exact .inl hends
  · rintro (hends | ⟨hpath, hclear⟩)
    · refine ⟨.inr hends, ?_⟩
      rintro (⟨review, -, -, hkey⟩ | hnone)
      · exact not_ends_self filePath ((createCommentKey_inj hkey).1 ▸ hends)
      · cases hnone
    · refine ⟨.inl hpath, ?_⟩
      rintro (⟨review, hreview, hfile, hkey⟩ | hnone)
      · obtain ⟨-, hline, hside⟩ := createCommentKey_inj hkey
        exact hclear review hreview ⟨hfile, hline.symm, hside.symm⟩
      · cases hnone

theorem mem_annotated_github {shown : String × DiffLineAnnotation} :
    shown ∈ annotated comments githubComments files ∧ shown.2.metadata = .github comment ↔
      comment ∈ githubComments ∧ shown.1 ∈ files ∧ Shows comments shown.1 comment ∧
        shown.2 = comment.annotate := by
  obtain ⟨filePath, note⟩ := shown
  obtain ⟨ghShown, htransform, hmem⟩ := transform_shows comments githubComments filePath
  have hannotated : (filePath, note) ∈ annotated comments githubComments files ↔
      filePath ∈ files ∧
        note ∈ transformCommentsToAnnotations comments githubComments filePath := by
    simp [annotated]
  rw [hannotated, htransform, List.mem_append, List.mem_map, List.mem_map]
  constructor
  · rintro ⟨⟨hfile, ⟨review, -, rfl⟩ | ⟨github, hgithub, rfl⟩⟩, hmetadata⟩
    · cases hmetadata
    · cases hmetadata
      exact ⟨((hmem comment).mp hgithub).1, hfile, ((hmem comment).mp hgithub).2, rfl⟩
  · rintro ⟨hcomment, hfile, hshows, rfl⟩
    exact ⟨⟨hfile, .inr ⟨comment, (hmem comment).mpr ⟨hcomment, hshows⟩, rfl⟩⟩, rfl⟩

theorem filter_review_append (reviews : List ReviewComment)
    (github : List NormalizedGitHubComment) :
    (reviews.map ReviewComment.annotate ++ github.map NormalizedGitHubComment.annotate).filter
      DiffLineAnnotation.isReview = reviews.map ReviewComment.annotate := by
  have hreviews : ∀ note ∈ reviews.map ReviewComment.annotate, note.isReview = true :=
    List.forall_mem_map.mpr fun _ _ => rfl
  have hgithub : ∀ note ∈ github.map NormalizedGitHubComment.annotate,
      ¬ note.isReview = true := List.forall_mem_map.mpr fun _ _ => nofun
  rw [List.filter_append, List.filter_eq_self.mpr hreviews, List.filter_eq_nil_iff.mpr hgithub,
    List.append_nil]

theorem reviews_perm (h : files.Nodup) :
    ((annotated comments githubComments files).filter fun shown => shown.2.isReview).Perm
      ((comments.filter fun comment => comment.filePath ∈ files).map fun comment =>
        (comment.filePath, comment.annotate)) := by
  induction files with
  | nil => simp [annotated]
  | cons filePath files ih =>
    obtain ⟨hnotin, hnodup⟩ := List.nodup_cons.mp h
    obtain ⟨shown, htransform, -⟩ := transform_shows comments githubComments filePath
    have hfront : ((transformCommentsToAnnotations comments githubComments filePath).map
        (Prod.mk filePath)).filter (fun shown => shown.2.isReview) =
          (comments.filter (·.filePath = filePath)).map fun comment =>
            (comment.filePath, comment.annotate) := by
      rw [List.filter_map, htransform]
      refine (congrArg _ (filter_review_append _ _)).trans ?_
      rw [List.map_map]
      refine List.map_congr_left fun comment hcomment => ?_
      rw [Function.comp_apply, of_decide_eq_true (List.mem_filter.mp hcomment).2]
    have hsplit : ((comments.filter (·.filePath = filePath)) ++
        comments.filter (·.filePath ∈ files)).Perm
          (comments.filter (·.filePath ∈ filePath :: files)) := by
      have hperm := List.filter_append_perm (fun comment : ReviewComment =>
        decide (comment.filePath = filePath)) (comments.filter (·.filePath ∈ filePath :: files))
      rw [List.filter_filter, List.filter_filter] at hperm
      refine .trans (.of_eq (congrArg₂ _ ?_ ?_)) hperm
      · exact List.filter_congr fun comment _ => by simp +contextual
      · refine List.filter_congr fun comment _ => ?_
        by_cases hpath : comment.filePath = filePath
        · simp [hpath, hnotin]
        · simp [hpath]
    rw [annotated, List.flatMap_cons, List.filter_append, hfront]
    exact ((ih hnodup).append_left _).trans (List.map_append ▸ hsplit.map _)

/-- The annotations are as they should be where a GitHub comment belongs to a file in a repository
only if no review comment is on its line there, and only if it belongs to no other file. -/
theorem annotated_proper_iff (comments : List ReviewComment)
    (githubComments : List NormalizedGitHubComment) (h : files.Nodup) :
    Proper comments githubComments files ↔
      ∀ comment ∈ githubComments, ∀ filePath ∈ files, Ends comment.filePath filePath →
        Clear comments filePath comment.lineNumber comment.side ∧
        ∀ filePath' ∈ files, filePath' ≠ filePath → ¬ Ends comment.filePath filePath' ∧
          (comment.filePath = filePath' →
            ¬ Clear comments filePath' comment.lineNumber comment.side) := by
  constructor
  · intro hproper comment hcomment filePath hfile hends
    have hshown : (filePath, comment.annotate) ∈ annotated comments githubComments files :=
      (mem_annotated_github.mpr ⟨hcomment, hfile, .inl hends, rfl⟩).1
    refine ⟨fun review hreview ⟨hpath, hline, hside⟩ => ?_, fun filePath' hfile' hne => ?_⟩
    · exact hproper.free _ hshown review hreview rfl
        ⟨hpath.symm, hline.symm, congrArg mapSideToAnnotationSide hside.symm⟩
    · have honce : ¬ Shows comments filePath' comment := fun hshows =>
        have hshown' : (filePath', comment.annotate) ∈ annotated comments githubComments files :=
          (mem_annotated_github.mpr ⟨hcomment, hfile', hshows, rfl⟩).1
        hne (hproper.github _ hshown' _ hshown comment rfl rfl)
      exact ⟨fun hends' => honce (.inl hends'), fun hpath hclear => honce (.inr ⟨hpath, hclear⟩)⟩
  · intro hcond
    refine ⟨reviews_perm h, ?_, ?_⟩
    · intro shown hshown shown' hshown' comment hmetadata hmetadata'
      obtain ⟨hcomment, hfile, hshows, -⟩ := mem_annotated_github.mp ⟨hshown, hmetadata⟩
      obtain ⟨-, hfile', hshows', -⟩ := mem_annotated_github.mp ⟨hshown', hmetadata'⟩
      by_contra hne
      obtain hends | ⟨hpath, hclear⟩ := hshows
      · obtain ⟨hends', hclear'⟩ := (hcond comment hcomment _ hfile hends).2 _ hfile' (Ne.symm hne)
        obtain hends'' | ⟨hpath', hclear''⟩ := hshows'
        · exact hends' hends''
        · exact hclear' hpath' hclear''
      · obtain hends' | ⟨hpath', -⟩ := hshows'
        · exact ((hcond comment hcomment _ hfile' hends').2 _ hfile hne).2 hpath hclear
        · exact hne (hpath.symm.trans hpath')
    · intro shown hshown review hreview hgithub ⟨hpath, hline, hside⟩
      obtain ⟨comment, hmetadata⟩ : ∃ comment, shown.2.metadata = .github comment := by
        unfold DiffLineAnnotation.isReview at hgithub
        split at hgithub
        · cases hgithub
        · exact ⟨_, ‹_›⟩
      obtain ⟨hcomment, hfile, hshows, hnote⟩ := mem_annotated_github.mp ⟨hshown, hmetadata⟩
      rw [hnote] at hline hside
      have hclear : Clear comments shown.1 comment.lineNumber comment.side := by
        obtain hends | ⟨-, hclear⟩ := hshows
        · exact (hcond comment hcomment _ hfile hends).1
        · exact hclear
      exact hclear review hreview ⟨hpath.symm, hline.symm, (mapSide_inj hside).symm⟩

def mainReview : ReviewComment :=
  { id := "r"
    filePath := "repo/main.rs"
    lineNumber := 3
    side := .new }

def mainGitHub (lineNumber : Int) : NormalizedGitHubComment :=
  { id := "1"
    filePath := "main.rs"
    lineNumber
    side := .new }

theorem annotated_proper_two :
    Proper [mainReview] [mainGitHub 4] ["repo/main.rs", "repo/lib.rs"] := by
  refine (annotated_proper_iff _ _ (by decide)).mpr ?_
  intro comment hcomment filePath hfile hends
  obtain rfl := List.mem_singleton.mp hcomment
  refine ⟨fun review hreview ⟨_, hline, _⟩ => ?_, fun filePath' hfile' hne => ?_⟩
  · rw [List.mem_singleton.mp hreview] at hline
    exact absurd hline (by decide)
  · obtain rfl | rfl := List.mem_pair.mp hfile' <;> obtain rfl | rfl := List.mem_pair.mp hfile
    · exact absurd rfl hne
    · exact absurd hends (by decide)
    · exact ⟨by decide, fun hpath => absurd hpath (by decide)⟩
    · exact absurd rfl hne

theorem not_annotated_proper : ¬ ∀ comments githubComments files, files.Nodup →
    Proper comments githubComments files := by
  intro h
  have hproper := h [mainReview] [mainGitHub 3] ["repo/main.rs"] (List.nodup_singleton _)
  have hshown : ("repo/main.rs", (mainGitHub 3).annotate) ∈
      annotated [mainReview] [mainGitHub 3] ["repo/main.rs"] :=
    (mem_annotated_github.mpr ⟨.head _, .head _, .inl (by decide), rfl⟩).1
  exact hproper.free _ hshown mainReview (.head _) rfl ⟨rfl, rfl, rfl⟩

end Cdesktop.CommentAnnotations
