import Mathlib.Data.List.MinMax
import Mathlib.Data.Prod.Lex
import Mathlib.Order.BoundedOrder.Basic
import Mathlib.Tactic.Common

/-!
# Champions

One pass over a list that replaces what it holds by an entry that beats it ends with a champion.
Where the comparison is not transitive, the champion may be beaten by an entry that the pass has
left behind, and another order of the list may have another champion. An entry that `Leads` is
enough for unbeaten champions (`Leads.champion_unbeaten`, `Leads.champions_tie`).

`outranks` compares by one criterion where both have it and by a second one elsewhere.
`leader_of_settled` and `order_of_not_settled` say that its champions are unbeaten in every order of
a list exactly when the list is `Settled`.
-/

namespace Tournament

section Champions

variable {α β : Type} {beats : α → α → Bool}

/-- One step of the pass. -/
def challenge (beats : α → α → Bool) (held : Option α) (entry : α) : Option α :=
  match held with
  | none => some entry
  | some champion => if beats entry champion then some entry else held

/-- The entry that is left after each has challenged the one before. -/
def champion (beats : α → α → Bool) (entries : List α) : Option α :=
  entries.foldl (challenge beats) none

/-- No entry beats it. -/
def Unbeaten (beats : α → α → Bool) (entries : List α) (entry : α) : Prop :=
  ∀ other ∈ entries, beats other entry = false

/-- An unbeaten entry that beats every entry that any other one beats. -/
structure Leads (beats : α → α → Bool) (entries : List α) (leader : α) : Prop where
  mem : leader ∈ entries
  unbeaten : Unbeaten beats entries leader
  others : ∀ entry ∈ entries, beats leader entry = true ∨ Unbeaten beats entries entry

/-- The pass over a list that starts with a champion. -/
theorem champion_cons (entry : α) (entries : List α) :
    champion beats (entry :: entries) = entries.foldl (challenge beats) (some entry) :=
  rfl

/-- A champion that none of the entries beats stays. -/
theorem foldl_challenge_of_unbeaten {held : α} {entries : List α}
    (h : Unbeaten beats entries held) :
    entries.foldl (challenge beats) (some held) = some held := by
  induction entries with
  | nil => rfl
  | cons entry entries ih =>
      obtain ⟨hentry, hentries⟩ := List.forall_mem_cons.mp h
      rw [List.foldl_cons, challenge, hentry]
      exact ih hentries

variable (beats) in
/-- The champion at the end is the one from the start or an entry that beat another. -/
theorem foldl_challenge_cases (held : α) (entries : List α) :
    ∃ last, entries.foldl (challenge beats) (some held) = some last ∧
      (last = held ∨ last ∈ entries) := by
  induction entries generalizing held with
  | nil => exact ⟨held, rfl, .inl rfl⟩
  | cons entry entries ih =>
      rw [List.foldl_cons, challenge]
      split_ifs with hbeats
      · obtain ⟨last, hlast, hcases⟩ := ih entry
        refine ⟨last, hlast, .inr ?_⟩
        rcases hcases with rfl | hmem
        · exact List.mem_cons_self
        · exact List.mem_cons_of_mem _ hmem
      · obtain ⟨last, hlast, hcases⟩ := ih held
        exact ⟨last, hlast, hcases.imp_right (List.mem_cons_of_mem _)⟩

/-- The champion is one of the entries. -/
theorem champion_mem {entries : List α} {last : α} (h : champion beats entries = some last) :
    last ∈ entries := by
  cases entries with
  | nil => cases h
  | cons entry entries =>
      obtain ⟨other, hother, hcases⟩ := foldl_challenge_cases beats entry entries
      rw [champion_cons, hother] at h
      obtain rfl := Option.some.inj h
      rcases hcases with rfl | hmem
      · exact List.mem_cons_self
      · exact List.mem_cons_of_mem _ hmem

variable (beats) in
/-- There is a champion, unless there are no entries. -/
theorem exists_champion {entries : List α} (h : entries ≠ []) :
    ∃ last, champion beats entries = some last := by
  cases entries with
  | nil => exact absurd rfl h
  | cons entry entries =>
      obtain ⟨last, hlast, -⟩ := foldl_challenge_cases beats entry entries
      exact ⟨last, hlast⟩

variable (beats) in
/-- Entries that are compared alike have champions alike. -/
theorem champion_map (beats' : β → β → Bool) (f : α → β)
    (h : ∀ entry other, beats' (f entry) (f other) = beats entry other) (entries : List α) :
    (champion beats entries).map f = champion beats' (entries.map f) := by
  have hfold : ∀ held : Option α, (entries.foldl (challenge beats) held).map f =
      (entries.map f).foldl (challenge beats') (held.map f) := by
    induction entries with
    | nil => exact fun _ => rfl
    | cons entry entries ih =>
        intro held
        rw [List.foldl_cons, List.map_cons, List.foldl_cons, ih]
        congr 1
        cases held with
        | none => rfl
        | some last =>
            simp only [challenge, Option.map_some, h]
            split_ifs <;> rfl
  exact hfold none

/-- Where the entries of a list are compared alike, its champion is the same. -/
theorem champion_congr {beats' : α → α → Bool} {entries : List α}
    (h : ∀ entry ∈ entries, ∀ other ∈ entries, beats entry other = beats' entry other) :
    champion beats entries = champion beats' entries := by
  have hfold : ∀ rest : List α, (∀ entry ∈ rest, entry ∈ entries) → ∀ held ∈ entries,
      rest.foldl (challenge beats) (some held) = rest.foldl (challenge beats') (some held) := by
    intro rest
    induction rest with
    | nil => exact fun _ _ _ => rfl
    | cons entry rest ih =>
        intro hrest held hheld
        obtain ⟨hentry, hrest⟩ := List.forall_mem_cons.mp hrest
        rw [List.foldl_cons, List.foldl_cons, challenge, challenge, h entry hentry held hheld]
        split_ifs
        · exact ih hrest entry hentry
        · exact ih hrest held hheld
  cases entries with
  | nil => rfl
  | cons entry entries =>
      exact hfold entries (fun _ hmem => List.mem_cons_of_mem _ hmem) entry List.mem_cons_self

/-- Some order of a list goes from one entry straight to the late ones, if no other beats it. -/
theorem exists_order {entries : List α} {held : α} (hmem : held ∈ entries) (late : α → Bool)
    (hearly : ∀ other ∈ entries, late other = false → beats other held = false) :
    ∃ order later, order.Perm entries ∧ champion beats order = champion beats (held :: later) ∧
      (∀ other ∈ later, other ∈ entries ∧ late other = true) ∧
      ∀ other ∈ entries, late other = true → other = held ∨ other ∈ later := by
  obtain ⟨front, behind, rfl⟩ := List.append_of_mem hmem
  have hperm : (held :: (front ++ behind)).Perm (front ++ held :: behind) :=
    List.perm_middle.symm
  have hsub : ∀ other ∈ front ++ behind, other ∈ front ++ held :: behind := fun other hother =>
    hperm.mem_iff.mp (List.mem_cons_of_mem _ hother)
  refine ⟨held :: ((front ++ behind).filter (fun other => !late other) ++
    (front ++ behind).filter late), (front ++ behind).filter late, ?_, ?_, ?_, ?_⟩
  · refine .trans (.cons held ?_) hperm
    exact List.perm_append_comm.trans (List.filter_append_perm late (front ++ behind))
  · rw [champion_cons, champion_cons, List.foldl_append, foldl_challenge_of_unbeaten]
    intro other hother
    obtain ⟨hother, hlate⟩ := List.mem_filter.mp hother
    exact hearly other (hsub other hother) (by simpa using hlate)
  · intro other hother
    obtain ⟨hother, hlate⟩ := List.mem_filter.mp hother
    exact ⟨hsub other hother, hlate⟩
  · intro other hother hlate
    refine (List.mem_cons.mp (hperm.mem_iff.mpr hother)).imp_right fun hrest => ?_
    exact List.mem_filter.mpr ⟨hrest, hlate⟩

/-- A beaten entry is, in some order of the list, followed by one that beats it. -/
theorem exists_order_beating {entries : List α} {held other : α} (hmem : held ∈ entries)
    (hirrefl : beats held held = false) (hother : other ∈ entries)
    (hbeats : beats other held = true) :
    ∃ order last, order.Perm entries ∧ champion beats order = some last ∧ last ∈ entries ∧
      beats last held = true := by
  obtain ⟨order, later, hperm, hchampion, hlater, hmemLater⟩ :=
    exists_order hmem (fun entry => beats entry held) fun _ _ hearly => hearly
  have hotherLater : other ∈ later := by
    refine (hmemLater other hother hbeats).resolve_left fun heq => ?_
    rw [heq, hirrefl] at hbeats
    exact Bool.false_ne_true hbeats
  cases later with
  | nil => exact absurd hotherLater List.not_mem_nil
  | cons entry later =>
      obtain ⟨last, hlast, hcases⟩ := foldl_challenge_cases beats entry later
      have hlastMem : last ∈ entry :: later := List.mem_cons.mpr hcases
      obtain ⟨hlastEntries, hlastBeats⟩ := hlater last hlastMem
      refine ⟨order, last, hperm, ?_, hlastEntries, hlastBeats⟩
      rw [hchampion, champion_cons, List.foldl_cons, challenge,
        if_pos (hlater entry List.mem_cons_self).2, hlast]

/-- With a leader, wherever it stands in the list, the champion is unbeaten. -/
theorem Leads.champion_unbeaten {entries : List α} {leader last : α}
    (h : Leads beats entries leader) (hlast : champion beats entries = some last) :
    Unbeaten beats entries last := by
  obtain ⟨hmem, hleader, hothers⟩ := h
  obtain ⟨front, behind, rfl⟩ := List.append_of_mem hmem
  -- from the leader on, the one held is unbeaten
  have hrest : ∀ held, Unbeaten beats (front ++ leader :: behind) held →
      behind.foldl (challenge beats) (some held) = some held := by
    intro held hheld
    refine foldl_challenge_of_unbeaten fun entry hentry => hheld entry ?_
    exact List.mem_append_right _ (List.mem_cons_of_mem _ hentry)
  unfold champion at hlast
  rw [List.foldl_append, List.foldl_cons] at hlast
  cases hfront : front.foldl (challenge beats) none with
  | none =>
      rw [hfront, challenge, hrest leader hleader] at hlast
      obtain rfl := Option.some.inj hlast
      exact hleader
  | some held =>
      have hheld : held ∈ front ++ leader :: behind :=
        List.mem_append_left _ (champion_mem hfront)
      rw [hfront, challenge] at hlast
      split_ifs at hlast with hbeats
      · rw [hrest leader hleader] at hlast
        obtain rfl := Option.some.inj hlast
        exact hleader
      · have hunbeaten := (hothers held hheld).resolve_left hbeats
        rw [hrest held hunbeaten] at hlast
        obtain rfl := Option.some.inj hlast
        exact hunbeaten

/-- A leader leads any list with the same entries. -/
theorem Leads.of_mem_iff {entries entries' : List α} {leader : α} (h : Leads beats entries leader)
    (hmem : ∀ entry, entry ∈ entries' ↔ entry ∈ entries) : Leads beats entries' leader where
  mem := (hmem leader).mpr h.mem
  unbeaten other hother := h.unbeaten other ((hmem other).mp hother)
  others entry hentry := (h.others entry ((hmem entry).mp hentry)).imp_right
    fun hunbeaten other hother => hunbeaten other ((hmem other).mp hother)

/-- With a leader, the champions of any two orders do not beat each other. -/
theorem Leads.champions_tie {entries order order' : List α} {leader last last' : α}
    (h : Leads beats entries leader) (horder : order.Perm entries) (horder' : order'.Perm entries)
    (hlast : champion beats order = some last) (hlast' : champion beats order' = some last') :
    beats last last' = false ∧ beats last' last = false := by
  have hunbeaten := (h.of_mem_iff fun _ => horder.mem_iff).champion_unbeaten hlast
  have hunbeaten' := (h.of_mem_iff fun _ => horder'.mem_iff).champion_unbeaten hlast'
  exact ⟨hunbeaten' last (horder'.mem_iff.mpr (horder.mem_iff.mp (champion_mem hlast))),
    hunbeaten last' (horder.mem_iff.mpr (horder'.mem_iff.mp (champion_mem hlast')))⟩

/-- A leader leads where the entries of the list are compared alike. -/
theorem Leads.congr {beats' : α → α → Bool} {entries : List α} {leader : α}
    (h : Leads beats entries leader)
    (heq : ∀ entry ∈ entries, ∀ other ∈ entries, beats' entry other = beats entry other) :
    Leads beats' entries leader where
  mem := h.mem
  unbeaten other hother := (heq other hother leader h.mem).trans (h.unbeaten other hother)
  others entry hentry := by
    rw [heq leader h.mem entry hentry]
    exact (h.others entry hentry).imp_right fun hunbeaten other hother =>
      (heq other hother entry hentry).trans (hunbeaten other hother)

/-- The image of a leader leads the images. -/
theorem Leads.map {beats' : β → β → Bool} {f : α → β} {entries : List α} {leader : α}
    (h : Leads beats entries leader)
    (hf : ∀ entry other, beats' (f entry) (f other) = beats entry other) :
    Leads beats' (entries.map f) (f leader) := by
  have hmap : ∀ entry, Unbeaten beats entries entry →
      Unbeaten beats' (entries.map f) (f entry) := by
    intro entry hentry
    refine List.forall_mem_map.mpr fun other hother => ?_
    rw [hf, hentry other hother]
  refine ⟨List.mem_map_of_mem h.mem, hmap leader h.unbeaten, ?_⟩
  refine List.forall_mem_map.mpr fun entry hentry => ?_
  rw [hf]
  exact (h.others entry hentry).imp_right (hmap entry)

end Champions

section Criteria

variable {α δ κ : Type} [LinearOrder δ] [OrderTop δ] [LinearOrder κ] (first : α → δ)
  (second : α → κ)

/-- The comparison by the first criterion, where both entries have it and it tells them apart, and
by the second one elsewhere; `⊤` stands for not having the first criterion. -/
def outranks (entry other : α) : Bool :=
  if first entry ≠ ⊤ ∧ first other ≠ ⊤ ∧ first entry ≠ first other then first entry < first other
  else second entry < second other

/-- An entry that has the first criterion, and none of the list is before it in it. -/
structure Earliest (entries : List α) (entry : α) : Prop where
  mem : entry ∈ entries
  timed : first entry ≠ ⊤
  le : ∀ other ∈ entries, first entry ≤ first other

/-- An earliest entry is, by the second criterion, before all entries without the first one or not
behind any with it, or an entry without the first criterion is before all with it. -/
def Settled (entries : List α) : Prop :=
  (∃ entry, Earliest first entries entry ∧
      ∀ other ∈ entries, first other = ⊤ → second entry < second other) ∨
    (∃ entry ∈ entries, first entry = ⊤ ∧
      ∀ other ∈ entries, first other ≠ ⊤ → second entry < second other) ∨
    ∃ entry, Earliest first entries entry ∧
      ∀ other ∈ entries, first other ≠ ⊤ → second entry ≤ second other

variable {first second} {entries : List α}

/-! ### Least entries -/

/-- An entry of a kind that is least in a measure among those of its kind. -/
theorem exists_least {ν : Type} [LinearOrder ν] (measure : α → ν) (kind : α → Prop) {entry : α}
    (hmem : entry ∈ entries) (hkind : kind entry) :
    ∃ least ∈ entries, kind least ∧
      ∀ other ∈ entries, kind other → measure least ≤ measure other := by
  classical
  have hfilter : entry ∈ entries.filter (kind ·) :=
    List.mem_filter.mpr ⟨hmem, decide_eq_true hkind⟩
  cases hleast : (entries.filter (kind ·)).argmin measure with
  | none =>
      rw [List.argmin_eq_none.mp hleast] at hfilter
      exact absurd hfilter List.not_mem_nil
  | some least =>
      have hmin : least ∈ (entries.filter (kind ·)).argmin measure := hleast
      obtain ⟨hleastMem, hleastKind⟩ := List.mem_filter.mp (List.argmin_mem hmin)
      refine ⟨least, hleastMem, of_decide_eq_true hleastKind, fun other hother hkind => ?_⟩
      exact List.le_of_mem_argmin (List.mem_filter.mpr ⟨hother, decide_eq_true hkind⟩) hmin

variable (second) in
/-- Among the earliest entries one is least in the second criterion. -/
theorem exists_earliest {entry : α} (hmem : entry ∈ entries) (htimed : first entry ≠ ⊤) :
    ∃ earliest, Earliest first entries earliest ∧
      ∀ other ∈ entries, first other = first earliest → second earliest ≤ second other := by
  obtain ⟨earliest, hearliest, -, hle⟩ := exists_least
    (fun entry => toLex (first entry, second entry)) (fun _ => True) hmem trivial
  have hlex : ∀ other ∈ entries, first earliest < first other ∨
      first earliest = first other ∧ second earliest ≤ second other := fun other hother =>
    Prod.Lex.toLex_le_toLex.mp (hle other hother trivial)
  have hfirst : ∀ other ∈ entries, first earliest ≤ first other := fun other hother =>
    (hlex other hother).elim le_of_lt fun heq => heq.1.le
  refine ⟨earliest, ⟨hearliest, ?_, hfirst⟩, fun other hother heq => ?_⟩
  · exact ne_top_of_le_ne_top htimed (hfirst entry hmem)
  · rcases hlex other hother with hlt | ⟨-, hsecond⟩
    · exact absurd heq hlt.ne'
    · exact hsecond

/-! ### Comparisons -/

/-- Where one entry lacks the first criterion, or both agree in it, the second decides. -/
theorem outranks_of_second {entry other : α}
    (h : first entry = ⊤ ∨ first other = ⊤ ∨ first entry = first other) :
    outranks first second entry other = decide (second entry < second other) := by
  rw [outranks, if_neg]
  · rintro ⟨hentry, hother, hne⟩
    rcases h with h | h | h <;> contradiction

/-- Where both entries have the first criterion and differ in it, it decides. -/
theorem outranks_of_first {entry other : α} (hentry : first entry ≠ ⊤) (hother : first other ≠ ⊤)
    (hne : first entry ≠ first other) :
    outranks first second entry other = decide (first entry < first other) := by
  rw [outranks, if_pos ⟨hentry, hother, hne⟩]

/-- Entries with the same criteria are beaten by the same ones. -/
theorem unbeaten_congr {entry other : α} (hfirst : first entry = first other)
    (hsecond : second entry = second other) (h : Unbeaten (outranks first second) entries entry) :
    Unbeaten (outranks first second) entries other := by
  intro third hthird
  have hbeaten := h third hthird
  unfold outranks at hbeaten ⊢
  rwa [← hfirst, ← hsecond]

/-! ### Settled lists -/

/-- An earliest entry leads if it is not behind the entries without the first criterion and, where
it ties with one of them, not behind any entry. -/
theorem Earliest.leads {leader : α} (h : Earliest first entries leader)
    (hleast : ∀ other ∈ entries, first other = first leader → second leader ≤ second other)
    (huntimed : ∀ other ∈ entries, first other = ⊤ → second leader ≤ second other)
    (hties : ∀ other ∈ entries, first other = ⊤ → second leader = second other →
      ∀ third ∈ entries, second leader ≤ second third) :
    Leads (outranks first second) entries leader := by
  have hunbeaten : Unbeaten (outranks first second) entries leader := by
    intro other hother
    by_cases hfirst : first other = ⊤
    · rw [outranks_of_second (.inl hfirst)]
      exact decide_eq_false (huntimed other hother hfirst).not_gt
    · by_cases hsame : first other = first leader
      · rw [outranks_of_second (.inr (.inr hsame))]
        exact decide_eq_false (hleast other hother hsame).not_gt
      · rw [outranks_of_first hfirst h.timed hsame]
        exact decide_eq_false (h.le other hother).not_gt
  refine ⟨h.mem, hunbeaten, fun entry hentry => ?_⟩
  by_cases hfirst : first entry = ⊤
  · rw [outranks_of_second (.inr (.inl hfirst)), decide_eq_true_iff]
    refine (huntimed entry hentry hfirst).lt_or_eq.imp_right fun htie other hother => ?_
    rw [outranks_of_second (.inr (.inl hfirst)), ← htie]
    exact decide_eq_false (hties entry hentry hfirst htie other hother).not_gt
  · by_cases hsame : first leader = first entry
    · rw [outranks_of_second (.inr (.inr hsame)), decide_eq_true_iff]
      exact (hleast entry hentry hsame.symm).lt_or_eq.imp_right fun htie =>
        unbeaten_congr hsame htie hunbeaten
    · rw [outranks_of_first h.timed hfirst hsame]
      exact .inl (decide_eq_true ((h.le entry hentry).lt_of_ne hsame))

/-- An entry without the first criterion leads if it is least among those without it and before
all that have it. -/
theorem leads_of_untimed {leader : α} (hmem : leader ∈ entries) (hleader : first leader = ⊤)
    (hleast : ∀ other ∈ entries, first other = ⊤ → second leader ≤ second other)
    (hbefore : ∀ other ∈ entries, first other ≠ ⊤ → second leader < second other) :
    Leads (outranks first second) entries leader := by
  have hle : ∀ other ∈ entries, second leader ≤ second other := by
    intro other hother
    by_cases hfirst : first other = ⊤
    · exact hleast other hother hfirst
    · exact (hbefore other hother hfirst).le
  have hunbeaten : Unbeaten (outranks first second) entries leader := by
    intro other hother
    rw [outranks_of_second (.inr (.inl hleader))]
    exact decide_eq_false (hle other hother).not_gt
  refine ⟨hmem, hunbeaten, fun entry hentry => ?_⟩
  rw [outranks_of_second (.inl hleader), decide_eq_true_iff]
  by_cases hfirst : first entry = ⊤
  · exact (hleast entry hentry hfirst).lt_or_eq.imp_right fun htie =>
      unbeaten_congr (hleader.trans hfirst.symm) htie hunbeaten
  · exact .inl (hbefore entry hentry hfirst)

/-- A settled list has a leader. -/
theorem leader_of_settled (h : Settled first second entries) :
    ∃ leader, Leads (outranks first second) entries leader := by
  rcases h with ⟨entry, hentry, hbefore⟩ | ⟨entry, hmem, hfirst, hbefore⟩ | ⟨entry, hentry, hle⟩
  · obtain ⟨leader, hleader, hleast⟩ := exists_earliest second hentry.mem hentry.timed
    have hsame : first entry = first leader :=
      le_antisymm (hentry.le leader hleader.mem) (hleader.le entry hentry.mem)
    have hlt : ∀ other ∈ entries, first other = ⊤ → second leader < second other :=
      fun other hother hfirst =>
        (hleast entry hentry.mem hsame).trans_lt (hbefore other hother hfirst)
    exact ⟨leader, hleader.leads hleast (fun other hother hfirst => (hlt other hother hfirst).le)
      fun other hother hfirst htie => absurd htie (hlt other hother hfirst).ne⟩
  · obtain ⟨leader, hleader, huntimed, hleast⟩ := exists_least second (first · = ⊤) hmem hfirst
    exact ⟨leader, leads_of_untimed hleader huntimed hleast fun other hother htimed =>
      (hleast entry hmem hfirst).trans_lt (hbefore other hother htimed)⟩
  · by_cases huntimed : ∃ other ∈ entries, first other = ⊤ ∧ second other < second entry
    · -- an entry without the first criterion is before all that have it
      obtain ⟨other, hother, hfirst, hlt⟩ := huntimed
      obtain ⟨leader, hleader, hleaderFirst, hleast⟩ :=
        exists_least second (first · = ⊤) hother hfirst
      exact ⟨leader, leads_of_untimed hleader hleaderFirst hleast fun third hthird htimed =>
        (hleast other hother hfirst).trans_lt (hlt.trans_le (hle third hthird htimed))⟩
    · have hall : ∀ other ∈ entries, second entry ≤ second other := by
        intro other hother
        by_cases hfirst : first other = ⊤
        · exact not_lt.mp fun hlt => huntimed ⟨other, hother, hfirst, hlt⟩
        · exact hle other hother hfirst
      exact ⟨entry, hentry.leads (fun other hother _ => hall other hother)
        (fun other hother _ => hall other hother) fun _ _ _ _ => hall⟩

/-! ### Unsettled lists -/

/-- Three entries that keep each other from leading, as every unsettled list has them. -/
structure Cycle (first : α → δ) (second : α → κ) (entries : List α)
    (earliest untimed lowest : α) : Prop where
  isEarliest : Earliest first entries earliest
  earliest_le : ∀ other ∈ entries, first other = first earliest → second earliest ≤ second other
  untimed_mem : untimed ∈ entries
  untimed_first : first untimed = ⊤
  untimed_le : ∀ other ∈ entries, first other = ⊤ → second untimed ≤ second other
  untimed_le_earliest : second untimed ≤ second earliest
  lowest_mem : lowest ∈ entries
  lowest_timed : first lowest ≠ ⊤
  lowest_le_untimed : second lowest ≤ second untimed
  lowest_lt_earliest : second lowest < second earliest

/-- Where the two orders settle nothing, three entries beat each other in a circle. -/
theorem cycle_of_not_settled (hentries : entries ≠ []) (h : ¬ Settled first second entries) :
    ∃ earliest untimed lowest, Cycle first second entries earliest untimed lowest := by
  simp only [Settled, not_or, not_exists, not_and] at h
  obtain ⟨hbefore, huntimed, htimed⟩ := h
  have hsome : ∃ entry ∈ entries, first entry ≠ ⊤ := by
    obtain ⟨entry, hentry⟩ := List.exists_mem_of_ne_nil entries hentries
    by_contra hnone
    push Not at hnone
    exact huntimed entry hentry (hnone entry hentry) fun other hother hfirst =>
      absurd (hnone other hother) hfirst
  obtain ⟨entry, hentry, hentryTimed⟩ := hsome
  obtain ⟨earliest, hearliest, hleast⟩ := exists_earliest second hentry hentryTimed
  have hsomeUntimed := hbefore earliest hearliest
  push Not at hsomeUntimed
  obtain ⟨other, hother, hotherFirst, hotherLe⟩ := hsomeUntimed
  obtain ⟨untimed, hmem, hfirst, hle⟩ := exists_least second (first · = ⊤) hother hotherFirst
  obtain ⟨lowest, hlowest, hlowestTimed, hlowestLe⟩ :=
    exists_least second (first · ≠ ⊤) hentry hentryTimed
  refine ⟨earliest, untimed, lowest, hearliest, hleast, hmem, hfirst, hle,
    (hle other hother hotherFirst).trans hotherLe, hlowest, hlowestTimed, ?_, ?_⟩
  · have hbehind := huntimed untimed hmem hfirst
    push Not at hbehind
    obtain ⟨third, hthird, hthirdTimed, hthirdLe⟩ := hbehind
    exact (hlowestLe third hthird hthirdTimed).trans hthirdLe
  · have hbehind := htimed earliest hearliest
    push Not at hbehind
    obtain ⟨third, hthird, hthirdTimed, hthirdLt⟩ := hbehind
    exact (hlowestLe third hthird hthirdTimed).trans_lt hthirdLt

/-- An unbeaten entry with the first criterion is one of the earliest. -/
theorem Earliest.first_of_unbeaten {earliest entry : α} (h : Earliest first entries earliest)
    (hentry : entry ∈ entries) (htimed : first entry ≠ ⊤)
    (hunbeaten : Unbeaten (outranks first second) entries entry) :
    first entry = first earliest := by
  by_contra hne
  have hbeaten := hunbeaten earliest h.mem
  rw [outranks_of_first h.timed htimed (Ne.symm hne)] at hbeaten
  exact of_decide_eq_false hbeaten ((h.le entry hentry).lt_of_ne (Ne.symm hne))

namespace Cycle

variable {earliest untimed lowest : α}

/-- Where the lowest entry beats the one without the first criterion, some order puts an entry that
beats it behind it. -/
theorem order_of_lt (h : Cycle first second entries earliest untimed lowest)
    (hlt : second lowest < second untimed) :
    ∃ order last, order.Perm entries ∧ champion (outranks first second) order = some last ∧
      ∀ entry ∈ entries, Unbeaten (outranks first second) entries entry →
        outranks first second entry last = true := by
  have hagainst : ∀ entry, outranks first second entry untimed =
      decide (second entry < second untimed) := fun entry =>
    outranks_of_second (.inr (.inl h.untimed_first))
  have hirrefl := (hagainst untimed).trans (decide_eq_false (lt_irrefl _))
  obtain ⟨order, last, hperm, hchampion, hmem, hbeats⟩ := exists_order_beating h.untimed_mem
    hirrefl h.lowest_mem ((hagainst lowest).trans (decide_eq_true hlt))
  rw [hagainst, decide_eq_true_iff] at hbeats
  have hlastTimed : first last ≠ ⊤ := fun htop =>
    absurd (h.untimed_le last hmem htop) hbeats.not_ge
  have hlastFirst : first last ≠ first earliest := fun heq =>
    absurd (h.untimed_le_earliest.trans (h.earliest_le last hmem heq)) hbeats.not_ge
  refine ⟨order, last, hperm, hchampion, fun entry hentry hunbeaten => ?_⟩
  have hentryTimed : first entry ≠ ⊤ := by
    intro htop
    have hbeaten := hunbeaten lowest h.lowest_mem
    rw [outranks_of_second (.inr (.inl htop))] at hbeaten
    exact of_decide_eq_false hbeaten (hlt.trans_le (h.untimed_le entry hentry htop))
  have hentryFirst := h.isEarliest.first_of_unbeaten hentry hentryTimed hunbeaten
  rw [outranks_of_first hentryTimed hlastTimed (hentryFirst.trans_ne hlastFirst.symm), hentryFirst]
  exact decide_eq_true ((h.isEarliest.le last hmem).lt_of_ne hlastFirst.symm)

/-- Where the lowest entry ties with the one without the first criterion, some order leaves only
entries with it to the lowest one, and ends with an earliest one. -/
theorem order_of_eq (h : Cycle first second entries earliest untimed lowest)
    (heq : second lowest = second untimed) :
    ∃ order last, order.Perm entries ∧ champion (outranks first second) order = some last ∧
      ∀ entry ∈ entries, Unbeaten (outranks first second) entries entry →
        outranks first second entry last = true := by
  have hearly : ∀ other ∈ entries, decide (first other ≠ ⊤) = false →
      outranks first second other lowest = false := by
    intro other hother huntimed
    have htop : first other = ⊤ := not_not.mp (of_decide_eq_false huntimed)
    rw [outranks_of_second (.inl htop), heq]
    exact decide_eq_false (h.untimed_le other hother htop).not_gt
  obtain ⟨order, later, hperm, hchampion, hlater, hmemLater⟩ := exists_order h.lowest_mem _ hearly
  have htimed : ∀ other ∈ lowest :: later, other ∈ entries ∧ first other ≠ ⊤ := by
    intro other hother
    rcases List.mem_cons.mp hother with rfl | hother
    · exact ⟨h.lowest_mem, h.lowest_timed⟩
    · exact ⟨(hlater other hother).1, of_decide_eq_true (hlater other hother).2⟩
  have hearliest : Earliest first (lowest :: later) earliest :=
    ⟨List.mem_cons.mpr (hmemLater earliest h.isEarliest.mem (decide_eq_true h.isEarliest.timed)),
      h.isEarliest.timed, fun other hother => h.isEarliest.le other (htimed other hother).1⟩
  have hleads : Leads (outranks first second) (lowest :: later) earliest :=
    hearliest.leads (fun other hother => h.earliest_le other (htimed other hother).1)
      (fun other hother htop => absurd htop (htimed other hother).2)
      fun other hother htop => absurd htop (htimed other hother).2
  obtain ⟨last, hlast⟩ := exists_champion (outranks first second)
    (List.cons_ne_nil lowest later)
  obtain ⟨hlastMem, hlastTimed⟩ := htimed last (champion_mem hlast)
  have hlastFirst : first last = first earliest :=
    hearliest.first_of_unbeaten (champion_mem hlast) hlastTimed (hleads.champion_unbeaten hlast)
  have hlt : second lowest < second last :=
    h.lowest_lt_earliest.trans_le (h.earliest_le last hlastMem hlastFirst)
  refine ⟨order, last, hperm, hchampion.trans hlast, fun entry hentry hunbeaten => ?_⟩
  have huntimed := hunbeaten untimed h.untimed_mem
  rw [outranks_of_second (.inl h.untimed_first), decide_eq_false_iff_not, not_lt, ← heq] at huntimed
  have hentryFirst : first entry = ⊤ := by
    by_contra htimed
    have hfirst := h.isEarliest.first_of_unbeaten hentry htimed hunbeaten
    exact absurd (h.lowest_lt_earliest.trans_le (h.earliest_le entry hentry hfirst))
      huntimed.not_gt
  rw [outranks_of_second (.inl hentryFirst)]
  exact decide_eq_true (huntimed.trans_lt hlt)

end Cycle

/-- In some order of an unsettled list every unbeaten entry beats the champion. -/
theorem order_of_not_settled (hentries : entries ≠ []) (h : ¬ Settled first second entries) :
    ∃ order last, order.Perm entries ∧ champion (outranks first second) order = some last ∧
      ∀ entry ∈ entries, Unbeaten (outranks first second) entries entry →
        outranks first second entry last = true := by
  obtain ⟨earliest, untimed, lowest, hcycle⟩ := cycle_of_not_settled hentries h
  rcases hcycle.lowest_le_untimed.lt_or_eq with hlt | heq
  · exact hcycle.order_of_lt hlt
  · exact hcycle.order_of_eq heq

end Criteria

end Tournament
