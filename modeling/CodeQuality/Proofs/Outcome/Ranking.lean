import CodeQuality.Proofs.Double.Total
import CodeQuality.Proofs.Path.Order

/-!
# The ranking of files

The files of a project are ranked by their scores in the total order of doubles, the highest
first, and files with the same score by their paths. The worst files are the first ones of this
ranking. It does not depend on the order in which files of different places are put together.
-/

namespace CodeQuality.ProjectOutcome

open Double

/-- The first file is ranked before the second one: its score is higher, or the scores are the
same and its path comes before the other's. -/
def Outranks (a b : FileOutcome) : Prop :=
  Precedes b.score a.score ∨ (a.score = b.score ∧ Path.compare a.path b.path = .lt)

section Order

variable {a b c : FileOutcome}

/-- Two files are in order when the second one is not ranked before the first. -/
theorem worseFirst_iff : worseFirst a b = true ↔ ¬ Outranks b a := by
  rw [Outranks, ← orderKey_lt_iff, ← orderKey_injective.eq_iff, worseFirst]
  split_ifs with hkey
  · simp [hkey, Path.le_iff_not_lt]
  · simp only [decide_eq_true_iff, Ne.symm hkey, false_and, or_false]
    omega

/-- Of two files in order, the second one has no higher score. -/
theorem orderKey_le_of_worseFirst (h : worseFirst a b = true) :
    orderKey b.score ≤ orderKey a.score := by
  rw [worseFirst] at h
  split_ifs at h with hkey
  · exact hkey.ge
  · exact (of_decide_eq_true h).le

/-- Of two files in order with the same score, the second one has no earlier path. -/
theorem le_path_of_worseFirst (h : worseFirst a b = true)
    (hkey : orderKey a.score = orderKey b.score) : Path.le a.path b.path = true := by
  rwa [worseFirst, if_pos hkey] at h

theorem worseFirst_trans (hab : worseFirst a b = true) (hbc : worseFirst b c = true) :
    worseFirst a c = true := by
  have hle := orderKey_le_of_worseFirst hab
  have hle' := orderKey_le_of_worseFirst hbc
  rw [worseFirst]
  split_ifs with hkey
  · -- All three scores are the same, so the paths decide.
    have hpath := le_path_of_worseFirst hab (by omega)
    have hpath' := le_path_of_worseFirst hbc (by omega)
    exact Std.TransCmp.isLE_trans hpath hpath'
  · exact decide_eq_true (by omega)

theorem worseFirst_total (a b : FileOutcome) : (worseFirst a b || worseFirst b a) = true := by
  rw [Bool.or_eq_true, worseFirst_iff, worseFirst_iff, ← not_and_or]
  rintro ⟨hba | ⟨hscore, hba⟩, hab | ⟨hscore', hab⟩⟩
  · rw [← orderKey_lt_iff] at hab hba
    omega
  · rw [← orderKey_lt_iff, hscore'] at hba
    exact lt_irrefl _ hba
  · rw [← orderKey_lt_iff, hscore] at hab
    exact lt_irrefl _ hab
  · have hswap : Path.compare b.path a.path = (Path.compare a.path b.path).swap :=
      Std.OrientedCmp.eq_swap
    rw [hab, hba] at hswap
    exact absurd hswap (by decide)

/-- Files that are in order both ways have the same place. -/
theorem components_eq_of_worseFirst (hab : worseFirst a b = true) (hba : worseFirst b a = true) :
    a.path.components = b.path.components := by
  have hle := orderKey_le_of_worseFirst hab
  have hle' := orderKey_le_of_worseFirst hba
  have hpath := le_path_of_worseFirst hab (by omega)
  have hpath' := le_path_of_worseFirst hba (by omega)
  by_contra hne
  exact Path.le_iff_not_lt.mp hpath' (Path.compare_eq_lt_of_le hpath hne)

end Order

/-- The files of a project from the worst to the best. -/
def ranking (project : ProjectOutcome) : List FileOutcome :=
  project.files.mergeSort worseFirst

section Ranking

variable (project : ProjectOutcome)

theorem worstFiles_eq (limit : ℕ) : project.worstFiles limit = project.ranking.take limit := rfl

theorem ranking_perm : project.ranking.Perm project.files :=
  List.mergeSort_perm _ _

theorem worstFiles_length : project.worstFiles project.files.length = project.ranking := by
  rw [worstFiles_eq, List.take_of_length_le]
  exact project.ranking_perm.length_eq.le

/-- No file of the ranking is to be ranked before an earlier one. -/
theorem pairwise_ranking : project.ranking.Pairwise fun a b => ¬ Outranks b a := by
  have hsorted : project.ranking.Pairwise fun a b => worseFirst a b = true := by
    apply List.pairwise_mergeSort
    · intro a b c hab hbc
      exact worseFirst_trans hab hbc
    · exact worseFirst_total
  exact hsorted.imp worseFirst_iff.mp

/-- The files that are left out are those behind the worst ones in the ranking. -/
theorem perm_drop_ranking {limit : ℕ} {rest : List FileOutcome}
    (h : (project.worstFiles limit ++ rest).Perm project.files) :
    rest.Perm (project.ranking.drop limit) := by
  have hwhole := h.trans project.ranking_perm.symm
  rw [worstFiles_eq] at hwhole
  nth_rewrite 2 [← List.take_append_drop limit project.ranking] at hwhole
  exact (List.perm_append_left_iff _).mp hwhole

variable {project} in
/-- Projects of the same files, all of different places, have the same ranking. -/
theorem ranking_eq_of_perm {other : ProjectOutcome} (h : project.files.Perm other.files)
    (hplaces : (project.files.map fun file => file.path.components).Nodup) :
    project.ranking = other.ranking := by
  have hperm : project.ranking.Perm other.ranking :=
    (project.ranking_perm.trans h).trans other.ranking_perm.symm
  refine List.Perm.eq_of_pairwise ?_ project.pairwise_ranking other.pairwise_ranking hperm
  intro a b ha hb hab hba
  have hfiles : a ∈ project.files ∧ b ∈ project.files :=
    ⟨project.ranking_perm.mem_iff.mp ha,
      project.ranking_perm.mem_iff.mp (hperm.mem_iff.mpr hb)⟩
  refine List.inj_on_of_nodup_map hplaces hfiles.1 hfiles.2 ?_
  exact components_eq_of_worseFirst (worseFirst_iff.mpr hab) (worseFirst_iff.mpr hba)

end Ranking

/-- The worst files are the first ones of one ranking of all files, by score in the total order
and then by path. So no file left out is ranked before a listed one, and the order in which files
of different places are put together does not matter. -/
theorem worstFiles_ranked :
    (∀ (project : ProjectOutcome) (limit more : ℕ), limit ≤ more →
      project.worstFiles limit = (project.worstFiles more).take limit ∧
        (project.worstFiles limit).length = min limit project.files.length) ∧
    (∀ project : ProjectOutcome,
      (project.worstFiles project.files.length).Perm project.files ∧
      (project.worstFiles project.files.length).Pairwise fun a b =>
        ¬ Precedes a.score b.score ∧ (a.score = b.score → Path.le a.path b.path = true)) ∧
    (∀ (project : ProjectOutcome) (limit : ℕ) (leftOut : List FileOutcome),
      (project.worstFiles limit ++ leftOut).Perm project.files →
        ∀ listed ∈ project.worstFiles limit, ∀ other ∈ leftOut,
          ¬ Precedes listed.score other.score ∧
          ¬ (other.score = listed.score ∧ Path.compare other.path listed.path = .lt)) ∧
    ∀ (analyses other : List FileAnalysis) (seconds otherSeconds : Float),
      analyses.Perm other →
      (analyses.map fun analysis => analysis.outcome.path.components).Nodup →
        ∀ limit, (ofAnalyses analyses seconds).worstFiles limit =
          (ofAnalyses other otherSeconds).worstFiles limit := by
  refine ⟨?_, ?_, ?_, ?_⟩
  · intro project limit more hle
    rw [worstFiles_eq, worstFiles_eq, List.take_take, min_eq_left hle, List.length_take,
      project.ranking_perm.length_eq]
    exact ⟨rfl, rfl⟩
  · intro project
    rw [worstFiles_length]
    refine ⟨project.ranking_perm, project.pairwise_ranking.imp ?_⟩
    intro a b hab
    obtain ⟨hscore, hpath⟩ := not_or.mp hab
    refine ⟨hscore, fun heq => ?_⟩
    exact Path.le_iff_not_lt.mpr fun hlt => hpath ⟨heq.symm, hlt⟩
  · intro project limit leftOut hperm listed hlisted other hother
    have hsorted := project.pairwise_ranking
    rw [← List.take_append_drop limit project.ranking, List.pairwise_append] at hsorted
    exact not_or.mp (hsorted.2.2 listed hlisted other
      ((project.perm_drop_ranking hperm).mem_iff.mp hother))
  · intro analyses other seconds otherSeconds hperm hplaces limit
    have hfiles : (ofAnalyses analyses seconds).files.Perm (ofAnalyses other otherSeconds).files :=
      hperm.map FileAnalysis.outcome
    rw [worstFiles_eq, worstFiles_eq, ranking_eq_of_perm hfiles]
    simpa [ofAnalyses, Function.comp_def] using hplaces

/-- Two files with one score, where the path with fewer components is the later one, and two zeros,
of which the negative one is ranked last in spite of its path. -/
theorem worstFiles_ranked_ties :
    let file (path : Path) (score : Float) : FileAnalysis :=
      { outcome := { path := path, language := .go, score := score } }
    let analyses := [file "lib/a.go" 0.5, file "lib.go" 0.5, file "z.go" 0.0, file "a.go" (-0.0)]
    let project := ofAnalyses analyses 0
    project.worstFiles 3 = (project.worstFiles 4).take 3 ∧
      ((ofAnalyses analyses.reverse 1).worstFiles 3).map FileOutcome.path =
        ["lib/a.go", "lib.go", "z.go"] ∧
      ¬ Precedes 0.0 (-0.0) := by
  intro file analyses project
  have hsorted : project.files.Pairwise fun a b => worseFirst a b = true := by decide
  have hranking : project.ranking = project.files := List.mergeSort_of_pairwise hsorted
  have hleft : (project.worstFiles 3 ++ [(file "a.go" (-0.0)).outcome]).Perm project.files := by
    rw [worstFiles_eq, hranking]
    exact List.Perm.refl _
  obtain ⟨hfirst, -, hleftOut, hfolded⟩ := worstFiles_ranked
  refine ⟨(hfirst project 3 4 (by decide)).1, ?_, ?_⟩
  · rw [hfolded analyses.reverse analyses 1 0 (List.reverse_perm _) (by decide) 3, worstFiles_eq,
      hranking]
    rfl
  · have hlisted : (file "z.go" 0.0).outcome ∈ project.worstFiles 3 := by
      rw [worstFiles_eq, hranking]
      simp [project, analyses, ofAnalyses]
    exact (hleftOut project 3 _ hleft _ hlisted _ List.mem_cons_self).1

end CodeQuality.ProjectOutcome
