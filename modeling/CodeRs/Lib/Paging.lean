import Mathlib.Data.List.Sort
import Mathlib.Data.List.Nodup
import Mathlib.Data.List.TakeWhile

/-!
# Pages behind a cursor

Records are scanned in one order and listed in another.  A page is the front of
the listing of what the scan sees from a cursor on, and the next cursor is the
key of the last record of the page.  The scan resumes at the first record whose
key is below the cursor, so the pages are right exactly when the keys at the
page ends agree with both orders.
-/

namespace CodeRs

/-! ## Parts of lists without repetition -/

section Lists

variable {α : Type*}

/-- A sublist of a list without repetition keeps exactly its members. -/
theorem filter_mem_eq_of_sublist [DecidableEq α] {l' l : List α}
    (h : l'.Sublist l)
    (hnodup : l.Nodup) : l.filter (· ∈ l') = l' := by
  induction h with
  | slnil => rfl
  | @cons l₁ l₂ a hsub ih =>
      obtain ⟨ha, hrest⟩ := List.nodup_cons.1 hnodup
      rw [List.filter_cons_of_neg (by
        simpa using fun hmem => ha (hsub.subset hmem))]
      exact ih hrest
  | @cons_cons l₁ l₂ a hsub ih =>
      obtain ⟨ha, hrest⟩ := List.nodup_cons.1 hnodup
      rw [List.filter_cons_of_pos (by simp)]
      congr 1
      rw [← ih hrest]
      refine List.filter_congr fun b hb => ?_
      have hne : b ≠ a := by
        rintro rfl
        exact ha hb
      simp [hne, hb]

/-- What is left after dropping a front: the elements from the first failure
on. -/
theorem mem_dropWhile_iff [DecidableEq α] {p : α → Bool} {l : List α}
    (hnodup : l.Nodup) {y : α} :
    y ∈ l.dropWhile p ↔
      y ∈ l ∧ ∃ w ∈ l, l.idxOf w ≤ l.idxOf y ∧ p w = false := by
  induction l with
  | nil => simp
  | cons a rest ih =>
      obtain ⟨ha, hrest⟩ := List.nodup_cons.1 hnodup
      cases hpa : p a with
      | false =>
          rw [List.dropWhile_cons_of_neg (by simp [hpa])]
          refine ⟨fun hy => ⟨hy, a, List.mem_cons_self, by simp, hpa⟩, And.left⟩
      | true =>
          rw [List.dropWhile_cons_of_pos hpa, ih hrest]
          constructor
          · rintro ⟨hy, w, hw, hle, hpw⟩
            have hya : a ≠ y := by
              rintro rfl
              exact ha hy
            have hwa : a ≠ w := by
              rintro rfl
              exact ha hw
            refine ⟨List.mem_cons_of_mem a hy, w,
              List.mem_cons_of_mem a hw, ?_, hpw⟩
            rw [List.idxOf_cons_ne _ hya, List.idxOf_cons_ne _ hwa]
            exact Nat.succ_le_succ hle
          · rintro ⟨hy, w, hw, hle, hpw⟩
            have hwa : a ≠ w := by
              rintro rfl
              rw [hpa] at hpw
              cases hpw
            rw [List.idxOf_cons_ne _ hwa] at hle
            have hya : a ≠ y := by
              rintro rfl
              rw [List.idxOf_cons_self] at hle
              exact absurd hle (by simp)
            rw [List.idxOf_cons_ne _ hya] at hle
            exact ⟨(List.mem_cons.1 hy).resolve_left (Ne.symm hya), w,
              (List.mem_cons.1 hw).resolve_left (Ne.symm hwa),
              Nat.le_of_succ_le_succ hle, hpw⟩

/-- The last record of a page that starts at position `k`. -/
theorem getLast?_take_drop {l : List α} {k n : ℕ} (hk : k < l.length)
    (hn : 0 < n) :
    ((l.drop k).take n).getLast? = l[min (k + n) l.length - 1]? := by
  rw [List.getLast?_eq_getElem?, List.length_take, List.length_drop,
    List.getElem?_take_of_lt (by omega), List.getElem?_drop]
  congr 1
  omega

theorem take_append_page {l : List α} {k n : ℕ} :
    l.take k ++ (l.drop k).take n = l.take (min (k + n) l.length) := by
  rw [← List.take_add, List.take_eq_take_min]

theorem page_append_drop {l : List α} {k n : ℕ} :
    (l.drop k).take n ++ l.drop (min (k + n) l.length) = l.drop k := by
  have hdrop : l.drop (min (k + n) l.length) = (l.drop k).drop n := by
    rw [List.drop_drop]
    obtain h | h := Nat.le_total (k + n) l.length
    · rw [Nat.min_eq_left h]
    · rw [Nat.min_eq_right h, List.drop_length, List.drop_eq_nil_of_le h]
  rw [hdrop, List.take_append_drop]

variable (before : α → α → Prop) [DecidableRel before]

/-- Insertion into a sorted list, seen through a filter. -/
theorem filter_orderedInsert [IsTrans α before] (p : α → Bool)
    (a : α) {l : List α}
    (hl : l.Pairwise before) :
    (l.orderedInsert before a).filter p =
      if p a then (l.filter p).orderedInsert before a else l.filter p := by
  induction l with
  | nil => cases hpa : p a <;> simp [hpa]
  | cons b rest ih =>
      obtain ⟨hb, hrest⟩ := List.pairwise_cons.1 hl
      by_cases hab : before a b
      · rw [List.orderedInsert_cons, if_pos hab, List.filter_cons]
        split
        · have hall : ∀ c ∈ (b :: rest).filter p, before a c := by
            intro c hc
            obtain rfl | hc := List.mem_cons.1 (List.mem_filter.1 hc).1
            · exact hab
            · exact trans_of before hab (hb c hc)
          cases hf : (b :: rest).filter p with
          | nil => rfl
          | cons c cs =>
              rw [List.orderedInsert_cons, if_pos (hall c (by simp [hf]))]
        · rfl
      · rw [List.orderedInsert_cons, if_neg hab, List.filter_cons, ih hrest]
        cases hpb : p b <;> cases hpa : p a <;>
          simp [hpb, hab]

theorem insertionSort_filter [Std.Total before] [IsTrans α before]
    (p : α → Bool)
    (l : List α) :
    (l.filter p).insertionSort before = (l.insertionSort before).filter p := by
  induction l with
  | nil => rfl
  | cons a rest ih =>
      rw [List.insertionSort_cons,
        filter_orderedInsert before p a
          (List.pairwise_insertionSort before rest), ← ih,
        List.filter_cons]
      cases hpa : p a <;> simp

end Lists

/-! ## Pages -/

section Pages

variable {α κ : Type*} [LinearOrder κ]
variable (before : α → α → Prop) [DecidableRel before]
variable (key : α → κ) (wanted : α → Bool) (files : List α) (pageSize : ℕ)

/-- What a scan sees: everything, or all from the first key below the cursor
on. -/
def scanFrom : Option κ → List α
  | none => files
  | some c => files.dropWhile fun f => ¬ key f < c

/-- The wanted records that a scan sees, in the order of the listing. -/
def listFrom (cursor : Option κ) : List α :=
  ((scanFrom key files cursor).filter wanted).insertionSort before

/-- All wanted records in the order of the listing. -/
def listing : List α := (files.filter wanted).insertionSort before

/-- The page behind a cursor. -/
def page (cursor : Option κ) : List α :=
  (listFrom before key wanted files cursor).take pageSize

/-- The records visited from a cursor on until a page is empty. -/
def visit : ℕ → Option κ → Option (List α)
  | 0, _ => none
  | fuel + 1, cursor =>
      let items := page before key wanted files pageSize cursor
      if items.isEmpty then some []
      else (visit fuel (items.getLast?.map key)).map (items ++ ·)

variable {before key wanted files pageSize}

theorem scanFrom_sublist (cursor : Option κ) :
    (scanFrom key files cursor).Sublist files := by
  cases cursor with
  | none => exact List.Sublist.refl _
  | some c => exact List.dropWhile_sublist _

theorem mem_listing {y : α} :
    y ∈ listing before wanted files ↔ y ∈ files ∧ wanted y := by
  rw [listing, List.mem_insertionSort, List.mem_filter]

theorem nodup_listing (hnodup : files.Nodup) :
    (listing before wanted files).Nodup :=
  (List.perm_insertionSort before _).nodup_iff.2 (hnodup.filter _)

/-! ### Page ends -/

/-- The scan from `cursor` lists what follows position `k`, where a page
ends. -/
structure AtPage (before : α → α → Prop) [DecidableRel before] (key : α → κ)
    (wanted : α → Bool) (files : List α) (pageSize k : ℕ) (cursor : Option κ) :
    Prop where
  rest : listFrom before key wanted files cursor =
    (listing before wanted files).drop k
  turn : pageSize ∣ k ∨ k = (listing before wanted files).length

theorem atPage_none : AtPage before key wanted files pageSize 0 none :=
  ⟨rfl, .inl (Nat.dvd_zero _)⟩

/-- The page from a good cursor: its end position and the record there. -/
theorem AtPage.page_end {k : ℕ} {cursor : Option κ}
    (h : AtPage before key wanted files pageSize k cursor)
    (hsize : 0 < pageSize)
    (hk : k < (listing before wanted files).length) :
    ∃ i x,
      k ≤ i ∧ i + 1 = min (k + pageSize) (listing before wanted files).length ∧
      (listing before wanted files)[i]? = some x ∧
      (pageSize ∣ i + 1 ∨ i + 1 = (listing before wanted files).length) ∧
      (page before key wanted files pageSize cursor).isEmpty = false ∧
      (page before key wanted files pageSize cursor).getLast? = some x ∧
      (listing before wanted files).take k ++
          page before key wanted files pageSize cursor =
        (listing before wanted files).take (i + 1) := by
  obtain ⟨i, hi⟩ : ∃ i, i + 1 = min (k + pageSize)
      (listing before wanted files).length := ⟨_, Nat.sub_add_cancel (by omega)⟩
  have hlt : i < (listing before wanted files).length := by omega
  have hlast := getLast?_take_drop hk hsize
  rw [← hi, Nat.add_sub_cancel, List.getElem?_eq_getElem hlt] at hlast
  refine ⟨i, _, by omega, hi, List.getElem?_eq_getElem hlt, ?_, ?_, ?_, ?_⟩
  · obtain hdvd | hlen := h.turn
    · by_cases hfull : k + pageSize ≤ (listing before wanted files).length
      · rw [hi, Nat.min_eq_left hfull]
        exact .inl (Nat.dvd_add hdvd (Nat.dvd_refl _))
      · exact .inr (by omega)
    · omega
  · rw [page, h.rest, List.isEmpty_eq_false_iff]
    intro hnil
    rw [hnil] at hlast
    cases hlast
  · rw [page, h.rest, hlast]
  · rw [page, h.rest, take_append_page, hi]

/-! ### Visited records -/

/-- A visited record is on a page behind the first cursor or behind one that a
visited record gave, and the whole page is visited. -/
theorem mem_visit {fuel : ℕ} {cursor : Option κ} {rest : List α} {z : α}
    (h : visit before key wanted files pageSize fuel cursor = some rest)
    (hz : z ∈ rest) :
    ∃ c, (c = cursor ∨ ∃ y ∈ rest, c = some (key y)) ∧
      z ∈ page before key wanted files pageSize c ∧
      ∀ y ∈ page before key wanted files pageSize c, y ∈ rest := by
  induction fuel generalizing cursor rest with
  | zero => cases h
  | succ fuel ih =>
      simp only [visit] at h
      split at h
      · cases h
        cases hz
      · rename_i hnonempty
        obtain ⟨rest', hrest', rfl⟩ := Option.map_eq_some_iff.1 h
        obtain hz | hz := List.mem_append.1 hz
        · exact ⟨cursor, .inl rfl, hz, fun y hy => List.mem_append_left _ hy⟩
        · obtain ⟨c, hc, hzc, hsub⟩ := ih hrest' hz
          refine ⟨c, .inr ?_, hzc,
            fun y hy => List.mem_append_right _ (hsub y hy)⟩
          obtain rfl | ⟨y, hy, rfl⟩ := hc
          · have hne : page before key wanted files pageSize cursor ≠ [] := by
              simpa using hnonempty
            exact ⟨_, List.mem_append_left _ (List.getLast_mem hne),
              by rw [List.getLast?_eq_some_getLast hne, Option.map_some]⟩
          · exact ⟨y, List.mem_append_right _ hy, rfl⟩

theorem mem_files_of_mem_visit {fuel : ℕ} {cursor : Option κ}
    {rest : List α} {z : α}
    (h : visit before key wanted files pageSize fuel cursor = some rest)
    (hz : z ∈ rest) : z ∈ files ∧ wanted z := by
  obtain ⟨c, -, hpage, -⟩ := mem_visit h hz
  have hlist := (List.mem_insertionSort _).1 (List.mem_of_mem_take hpage)
  obtain ⟨hscan, hwanted⟩ := List.mem_filter.1 hlist
  exact ⟨(scanFrom_sublist c).subset hscan, hwanted⟩

theorem page_subset_visit {fuel : ℕ} {cursor : Option κ} {rest : List α}
    (h : visit before key wanted files pageSize fuel cursor = some rest) {z : α}
    (hz : z ∈ page before key wanted files pageSize cursor) : z ∈ rest := by
  cases fuel with
  | zero => cases h
  | succ fuel =>
      simp only [visit] at h
      split at h
      · rename_i hempty
        rw [List.isEmpty_iff.1 hempty] at hz
        cases hz
      · obtain ⟨rest', -, rfl⟩ := Option.map_eq_some_iff.1 h
        exact List.mem_append_left _ hz

/-! ### Splitting cursors -/

variable [DecidableEq α]

section Definitions

variable (before key wanted files pageSize)

/-- The cursor at `x`, the record at position `i` of the listing, splits the
listing: the records after `x` are those scanned not before a smaller key. -/
def Splits (i : ℕ) (x : α) : Prop :=
  ∀ y ∈ listing before wanted files,
    y ∈ (listing before wanted files).drop (i + 1) ↔
      ∃ w ∈ files, files.idxOf w ≤ files.idxOf y ∧ key w < key x

/-- The cursor at the end of every page of the listing splits it. -/
def PagesSplit : Prop :=
  ∀ i x, (listing before wanted files)[i]? = some x →
    pageSize ∣ i + 1 ∨ i + 1 = (listing before wanted files).length →
    Splits before key wanted files i x

end Definitions

theorem mem_scanFrom_some (hnodup : files.Nodup) {c : κ} {y : α} :
    y ∈ scanFrom key files (some c) ↔
      y ∈ files ∧ ∃ w ∈ files, files.idxOf w ≤ files.idxOf y ∧ key w < c := by
  rw [scanFrom, mem_dropWhile_iff hnodup]
  simp

/-- The cursors split the listing where both orders go down the keys. -/
theorem pagesSplit_of_sorted (hkeys : files.Pairwise fun a b => key b < key a)
    (hbefore : files.Pairwise before) :
    PagesSplit before key wanted files pageSize := by
  have hlisting : listing before wanted files = files.filter wanted :=
    List.Pairwise.insertionSort_eq (hbefore.filter wanted)
  have hsorted : (listing before wanted files).Pairwise fun a b =>
      key b < key a :=
    hlisting ▸ hkeys.filter wanted
  intro i x hx _ y hy
  have hscan : (∃ w ∈ files, files.idxOf w ≤ files.idxOf y ∧ key w < key x) ↔
      key y < key x := by
    constructor
    · rintro ⟨w, hw, hle, hlt⟩
      obtain hlt' | heq := Nat.lt_or_eq_of_le hle
      · refine lt_trans ?_ hlt
        have hyx := (List.pairwise_iff_getElem.1 hkeys) _ _
          (List.idxOf_lt_length_of_mem hw)
          (List.idxOf_lt_length_of_mem (mem_listing.1 hy).1) hlt'
        simpa using hyx
      · rwa [← (List.idxOf_inj hw).1 heq]
    · exact fun hlt => ⟨y, (mem_listing.1 hy).1, le_rfl, hlt⟩
  rw [hscan]
  obtain ⟨hi, rfl⟩ := List.getElem?_eq_some_iff.1 hx
  obtain ⟨j, hj, rfl⟩ := List.getElem_of_mem hy
  have hnodup : (listing before wanted files).Nodup :=
    hsorted.imp fun hlt heq => absurd hlt (by simp [heq])
  have hpair := List.pairwise_iff_getElem.1 hsorted
  constructor
  · intro hdrop
    obtain ⟨m, hm, heq⟩ := List.getElem_of_mem hdrop
    rw [List.getElem_drop] at heq
    rw [← heq]
    exact hpair _ _ _ _ (by omega)
  · intro hlt
    have hij : i < j := by
      by_contra hge
      obtain hlt' | heq := Nat.lt_or_eq_of_le (Nat.le_of_not_lt hge)
      · exact lt_asymm hlt (hpair _ _ hj hi hlt')
      · subst heq
        exact lt_irrefl _ hlt
    refine List.mem_iff_getElem.2 ⟨j - (i + 1), ?_, ?_⟩
    · rw [List.length_drop]
      omega
    · rw [List.getElem_drop]
      congr 1
      omega

variable [Std.Total before] [IsTrans α before]

/-- What a scan lists is the listing without the records it does not see. -/
theorem listFrom_eq_filter (hnodup : files.Nodup) (cursor : Option κ) :
    listFrom before key wanted files cursor =
      (listing before wanted files).filter (· ∈ scanFrom key files cursor) := by
  have hscan : files.filter (· ∈ scanFrom key files cursor) =
      scanFrom key files cursor :=
    filter_mem_eq_of_sublist (scanFrom_sublist cursor) hnodup
  rw [listFrom, listing, ← insertionSort_filter, List.filter_filter]
  congr 1
  conv_lhs => rw [← hscan]
  rw [List.filter_filter]
  refine List.filter_congr fun y _ => Bool.and_comm _ _

theorem splits_iff (hnodup : files.Nodup) {i : ℕ} {x : α} :
    Splits before key wanted files i x ↔
      listFrom before key wanted files (some (key x)) =
        (listing before wanted files).drop (i + 1) := by
  rw [listFrom_eq_filter hnodup]
  constructor
  · intro hsplit
    have hlisting : (listing before wanted files).Nodup := nodup_listing hnodup
    rw [← filter_mem_eq_of_sublist (List.drop_sublist (i + 1) _) hlisting]
    refine List.filter_congr fun y hy => ?_
    rw [decide_eq_decide, hsplit y hy, mem_scanFrom_some hnodup]
    exact ⟨And.right, fun h => ⟨(mem_listing.1 hy).1, h⟩⟩
  · intro heq y hy
    rw [← heq, List.mem_filter, decide_eq_true_eq, mem_scanFrom_some hnodup]
    exact ⟨fun h => h.2.2, fun h => ⟨hy, (mem_listing.1 hy).1, h⟩⟩

/-! ### Walking through the pages -/

/-- Splitting cursors lead from page to page through the rest of the listing. -/
theorem visit_of_atPage (hnodup : files.Nodup) (hsize : 0 < pageSize)
    (hsplit : PagesSplit before key wanted files pageSize) (m : ℕ) :
    ∀ k cursor, (listing before wanted files).length - k ≤ m →
      AtPage before key wanted files pageSize k cursor →
      ∃ fuel, visit before key wanted files pageSize fuel cursor =
        some ((listing before wanted files).drop k) := by
  induction m with
  | zero =>
      intro k cursor hm h
      have hdrop : (listing before wanted files).drop k = [] :=
        List.drop_eq_nil_of_le (by omega)
      exact ⟨1, by simp [visit, page, h.rest, hdrop]⟩
  | succ m ih =>
      intro k cursor hm h
      by_cases hk : k < (listing before wanted files).length
      · obtain ⟨i, x, hki, hi, hx, hend, hnonempty, hlast, htake⟩ :=
          h.page_end hsize hk
        obtain ⟨fuel, hvisit⟩ := ih (i + 1) (some (key x)) (by omega)
          ⟨(splits_iff hnodup).1 (hsplit i x hx hend), hend⟩
        refine ⟨fuel + 1, ?_⟩
        have hdrop : page before key wanted files pageSize cursor ++
            (listing before wanted files).drop (i + 1) =
              (listing before wanted files).drop k := by
          rw [page, h.rest, hi, page_append_drop]
        simp only [visit, hnonempty, hlast, Option.map_some, hvisit, hdrop]
        rfl
      · exact ih k cursor (by omega) h

/-- A page starts with visited records as soon as its scan sees one of them. -/
theorem exists_mem_page_of_mem_take (hnodup : files.Nodup)
    (hsize : 0 < pageSize)
    {k : ℕ} {cursor : Option κ} {y : α}
    (hy : y ∈ (listing before wanted files).take k)
    (hscan : y ∈ scanFrom key files cursor) :
    ∃ z ∈ (listing before wanted files).take k,
      z ∈ page before key wanted files pageSize cursor := by
  have hsplit : listFrom before key wanted files cursor =
      ((listing before wanted files).take k).filter (· ∈
        scanFrom key files cursor) ++
        ((listing before wanted files).drop k).filter
          (· ∈ scanFrom key files cursor) := by
    rw [← List.filter_append, List.take_append_drop, listFrom_eq_filter hnodup]
  have hmem : y ∈ ((listing before wanted files).take k).filter
      (· ∈ scanFrom key files cursor) :=
    List.mem_filter.2 ⟨hy, by simpa using hscan⟩
  obtain ⟨z, rest, hz⟩ := List.exists_cons_of_ne_nil (List.ne_nil_of_mem hmem)
  refine ⟨z, (List.mem_filter.1 (hz ▸ List.mem_cons_self)).1, ?_⟩
  rw [page, hsplit, hz, List.cons_append]
  obtain ⟨n, rfl⟩ := Nat.exists_eq_add_of_lt hsize
  rw [Nat.zero_add, List.take_succ_cons]
  exact List.mem_cons_self

/-- If the rest of the pages repeats nothing and misses nothing, the cursor that
starts it splits the listing. -/
theorem splits_of_visit_rest (hnodup : files.Nodup)
    (hsize : 0 < pageSize) {i : ℕ}
    {x : α} (hx : (listing before wanted files)[i]? = some x) {fuel : ℕ}
    {rest : List α}
    (hvisit : visit before key wanted files pageSize fuel (some (key x)) =
      some rest)
    (hdisjoint : ∀ y ∈ (listing before wanted files).take (i + 1), y ∉ rest)
    (hall : ∀ y ∈ (listing before wanted files).drop (i + 1), y ∈ rest) :
    Splits before key wanted files i x := by
  have hscan_iff : ∀ c, ∀ y ∈ listing before wanted files,
      y ∈ scanFrom key files (some c) ↔
        ∃ w ∈ files, files.idxOf w ≤ files.idxOf y ∧ key w < c := by
    intro c y hy
    rw [mem_scanFrom_some hnodup, and_iff_right (mem_listing.1 hy).1]
  have hxmem := List.mem_of_getElem? hx
  intro y hy
  constructor
  · intro hdrop
    by_contra hnot
    obtain ⟨c, hc, hypage, hsub⟩ := mem_visit hvisit (hall y hdrop)
    have hyscan : y ∈ scanFrom key files c := by
      have hylist := List.mem_of_mem_take hypage
      rw [listFrom_eq_filter hnodup, List.mem_filter,
        decide_eq_true_eq] at hylist
      exact hylist.2
    obtain rfl | ⟨v, -, rfl⟩ := hc
    · exact hnot ((hscan_iff _ y hy).1 hyscan)
    · -- the cursor of `v` is above `x`, so its page starts with visited records
      obtain ⟨w, hw, hle, hlt⟩ := (hscan_iff _ y hy).1 hyscan
      have hxw : ¬ key w < key x := by
        intro h
        exact hnot ⟨w, hw, hle, h⟩
      have hxscan : x ∈ scanFrom key files (some (key v)) :=
        (hscan_iff _ x hxmem).2
          ⟨x, (mem_listing.1 hxmem).1, le_rfl, (not_lt.1 hxw).trans_lt hlt⟩
      have hxtake : x ∈ (listing before wanted files).take (i + 1) :=
        List.mem_of_getElem? (by
          rw [List.getElem?_take_of_lt (Nat.lt_succ_self i), hx])
      obtain ⟨z, hz, hzpage⟩ :=
        exists_mem_page_of_mem_take hnodup hsize hxtake hxscan
      exact hdisjoint z hz (hsub z hzpage)
  · intro hscan
    by_contra hdrop
    have htake : y ∈ (listing before wanted files).take (i + 1) := by
      rw [← List.take_append_drop (i + 1) (listing before wanted files)] at hy
      exact (List.mem_append.1 hy).resolve_right hdrop
    obtain ⟨z, hz, hzpage⟩ :=
      exists_mem_page_of_mem_take hnodup hsize htake
        ((hscan_iff _ y hy).2 hscan)
    exact hdisjoint z hz (page_subset_visit hvisit hzpage)

/-- If a walk through the pages repeats nothing and misses nothing, the page
ends that it passes split the listing. -/
theorem splits_of_visit (hnodup : files.Nodup)
    (hsize : 0 < pageSize) {fuel : ℕ} :
    ∀ k cursor rest, AtPage before key wanted files pageSize k cursor →
      visit before key wanted files pageSize fuel cursor = some rest →
      ((listing before wanted files).take k ++ rest).Nodup →
      (∀ y ∈ listing before wanted files,
        y ∈ (listing before wanted files).take k ++ rest) →
      ∀ i x, k ≤ i → (listing before wanted files)[i]? = some x →
        pageSize ∣ i + 1 ∨ i + 1 = (listing before wanted files).length →
        Splits before key wanted files i x := by
  induction fuel with
  | zero =>
      intro k cursor rest _ hvisit
      cases hvisit
  | succ fuel ih =>
      intro k cursor rest hat hvisit hrest hall j y hkj hy hend
      have hlt := (List.getElem?_eq_some_iff.1 hy).1
      obtain ⟨i, x, hki, hi, hx, hendi, hnonempty, hlast, htake⟩ :=
        hat.page_end hsize (by omega)
      simp only [visit, hnonempty, hlast, Option.map_some] at hvisit
      obtain ⟨rest', hrest', rfl⟩ := Option.map_eq_some_iff.1 hvisit
      rw [← List.append_assoc, htake] at hrest hall
      have hsplit : Splits before key wanted files i x := by
        refine splits_of_visit_rest hnodup hsize hx hrest'
          (fun z hz hz' => (List.nodup_append.1 hrest).2.2 z hz z hz' rfl) ?_
        intro z hz
        obtain h | h := List.mem_append.1 (hall z (List.mem_of_mem_drop hz))
        · exact absurd hz
            (List.disjoint_take_drop (nodup_listing hnodup) le_rfl h)
        · exact h
      obtain hji | hji := Nat.lt_or_ge i j
      · exact ih (i + 1) (some (key x)) rest' ⟨(splits_iff hnodup).1 hsplit,
          hendi⟩
          hrest' hrest hall j y hji hy hend
      · -- the next page end is at `i`
        have hij : i = j := by
          obtain hdvd | hlen := hend
          · have hk : pageSize ∣ k := hat.turn.resolve_right (by omega)
            have hle := Nat.le_of_dvd (by omega) (Nat.dvd_sub hdvd hk)
            omega
          · omega
        subst hij
        rw [hx, Option.some.injEq] at hy
        exact hy ▸ hsplit

/-- Passing each next cursor on until a page is empty visits every wanted record
exactly once, if and only if the cursors at the page ends split the listing. -/
theorem visits_once_iff (hnodup : files.Nodup) (hsize : 0 < pageSize) :
    (∃ fuel visited, visit before key wanted files pageSize fuel none =
      some visited ∧
        visited.Nodup ∧ ∀ y, y ∈ visited ↔ y ∈ files ∧ wanted y) ↔
      PagesSplit before key wanted files pageSize := by
  constructor
  · rintro ⟨fuel, visited, hvisit, hvisited, hall⟩ i x hx hend
    refine splits_of_visit hnodup hsize 0 none visited atPage_none
      hvisit hvisited ?_
      i x (Nat.zero_le i) hx hend
    exact fun y hy => (hall y).2 (mem_listing.1 hy)
  · intro hsplit
    obtain ⟨fuel, hvisit⟩ :=
      visit_of_atPage hnodup hsize hsplit _ 0 none le_rfl atPage_none
    exact ⟨fuel, _, hvisit, nodup_listing hnodup, fun y => mem_listing⟩

end Pages

end CodeRs
