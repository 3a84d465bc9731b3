import CodeRs.Lib.Naming
import CodeRs.Mcp.Tools

/-!
# Every tool has one name

The names of `qualify_tools` are the names of the first tool of each raw name,
given one after another with the disambiguated name as the substitute.  A tool
gets none if both of its names are used already.
-/

namespace CodeRs.Mcp

/-! ## Names that the Responses API takes -/

/-- `^[a-zA-Z0-9_-]+$`. -/
def IsToolName (name : Text) : Prop :=
  name ≠ [] ∧ ∀ c ∈ name, isAllowed c = true

/-- A digit of a digest. -/
def isLowerHex (c : Char) : Bool := c.isDigit || ('a' ≤ c && c ≤ 'f')

/-- A digest of forty digits that is different for different raw names. -/
structure DigestOn (sha1Hex : Text → Text) (names : List Text) : Prop where
  length_eq : ∀ name ∈ names, (sha1Hex name).length = 40
  isLowerHex : ∀ name ∈ names, ∀ c ∈ sha1Hex name, isLowerHex c = true
  injective : ∀ a ∈ names, ∀ b ∈ names, sha1Hex a = sha1Hex b → a = b

theorem DigestOn.of_all {sha1Hex : Text → Text} {names : List Text}
    (hlength : ∀ name ∈ names, (sha1Hex name).length = 40)
    (hdigits : ∀ name ∈ names, (sha1Hex name).all Mcp.isLowerHex = true)
    (hinj : ∀ a ∈ names, ∀ b ∈ names, sha1Hex a = sha1Hex b → a = b) :
    DigestOn sha1Hex names :=
  ⟨hlength, fun name hname => List.all_eq_true.1 (hdigits name hname), hinj⟩

theorem isLower_iff {c : Char} :
    c.isLower = true ↔ 'a'.val ≤ c.val ∧ c.val ≤ 'z'.val := by
  change (decide ('a'.val ≤ c.val) && decide (c.val ≤ 'z'.val)) = true ↔ _
  rw [Bool.and_eq_true, decide_eq_true_eq, decide_eq_true_eq]

theorem isAllowed_iff {c : Char} :
    isAllowed c = true ↔
      c.isUpper = true ∨ c.isLower = true ∨ c.isDigit = true ∨
        c = '_' ∨ c = '-' := by
  change (((c.isUpper || c.isLower) || c.isDigit) || c == '_' || c == '-') =
    true ↔ _
  simp only [Bool.or_eq_true, beq_iff_eq, or_assoc]

theorem isAllowed_of_isLowerHex {c : Char} (h : isLowerHex c = true) :
    isAllowed c = true := by
  simp only [isLowerHex, Bool.or_eq_true, Bool.and_eq_true,
    decide_eq_true_eq] at h
  rw [isAllowed_iff]
  rcases h with hdigit | ⟨hle, hge⟩
  · exact Or.inr (Or.inr (Or.inl hdigit))
  · exact Or.inr (Or.inl (isLower_iff.2 ⟨hle, UInt32.le_trans hge (by decide)⟩))

theorem val_le_of_isAllowed {c : Char} (h : isAllowed c = true) :
    c.val ≤ 127 := by
  rcases isAllowed_iff.1 h with hupper | hlower | hdigit | rfl | rfl
  · have hle : 'A'.val ≤ c.val ∧ c.val ≤ 'Z'.val := of_decide_eq_true hupper
    exact UInt32.le_trans hle.2 (by decide)
  · exact UInt32.le_trans (isLower_iff.1 hlower).2 (by decide)
  · have hle := Char.isDigit_iff_toNat.1 hdigit
    exact UInt32.le_iff_toNat_le.2 (hle.2.trans (by decide))
  · decide
  · decide

theorem utf8Size_of_isAllowed {c : Char} (h : isAllowed c = true) :
    c.utf8Size = 1 := by
  rw [Char.utf8Size]
  exact if_pos (val_le_of_isAllowed h)

theorem byteLen_of_isAllowed {t : Text} (h : ∀ c ∈ t, isAllowed c = true) :
    t.byteLen = t.length := by
  induction t with
  | nil => rfl
  | cons c t ih =>
      rw [List.forall_mem_cons] at h
      rw [Text.byteLen_cons, ih h.2, utf8Size_of_isAllowed h.1,
        List.length_cons, Nat.add_comm]

/-- A cut in a tool name is between two characters. -/
theorem truncate_of_isAllowed {t : Text}
    (h : ∀ c ∈ t, isAllowed c = true) (n : ℕ) :
    t.truncate n = some (t.take n) := by
  induction t generalizing n with
  | nil => cases n <;> rfl
  | cons c t ih =>
      rw [List.forall_mem_cons] at h
      cases n with
      | zero => rfl
      | succ n =>
          have hc := utf8Size_of_isAllowed h.1
          rw [Text.truncate, if_pos (by omega), hc, Nat.add_sub_cancel, ih h.2]
          rfl

theorem sanitize_isToolName (name : Text) :
    IsToolName (sanitizeResponsesApiToolName name) := by
  simp only [sanitizeResponsesApiToolName]
  split
  next => exact ⟨by decide, List.all_eq_true.1 (by decide)⟩
  next hne =>
    refine ⟨hne, fun c hc => ?_⟩
    obtain ⟨d, -, rfl⟩ := List.mem_map.1 hc
    split
    next hd => exact hd
    next => rfl

/-! ## The names of a tool -/

section Names

variable {sha1Hex : Text → Text} {names : List Text}

theorem DigestOn.appendSha1Suffix_eq (h : DigestOn sha1Hex names)
    {base raw : Text} (hbase : ∀ c ∈ base, isAllowed c = true)
    (hraw : raw ∈ names) :
    appendSha1Suffix sha1Hex base raw = base.take 24 ++ sha1Hex raw := by
  have hdigest : (sha1Hex raw).byteLen = 40 := by
    rw [byteLen_of_isAllowed
      fun c hc => isAllowed_of_isLowerHex (h.isLowerHex raw hraw c hc),
      h.length_eq raw hraw]
  simp only [appendSha1Suffix, hdigest, maxToolNameLength,
    byteLen_of_isAllowed hbase,
    truncate_of_isAllowed hbase]
  split
  next => rfl
  next hshort => rw [List.take_of_length_le (Nat.le_of_not_lt hshort)]

theorem DigestOn.appendSha1Suffix_isToolName (h : DigestOn sha1Hex names)
    {base raw : Text} (hbase : IsToolName base)
    (hraw : raw ∈ names) :
    IsToolName (appendSha1Suffix sha1Hex base raw) ∧
      (appendSha1Suffix sha1Hex base raw).byteLen ≤ maxToolNameLength := by
  rw [h.appendSha1Suffix_eq hbase.2 hraw]
  have hallowed : ∀ c ∈ base.take 24 ++ sha1Hex raw, isAllowed c = true := by
    intro c hc
    rcases List.mem_append.1 hc with hc | hc
    · exact hbase.2 c (List.mem_of_mem_take hc)
    · exact isAllowed_of_isLowerHex (h.isLowerHex raw hraw c hc)
  refine ⟨⟨fun hnil => ?_, hallowed⟩, ?_⟩
  · have hlength := h.length_eq raw hraw
    rw [(List.append_eq_nil_iff.1 hnil).2] at hlength
    cases hlength
  · rw [byteLen_of_isAllowed hallowed, List.length_append, h.length_eq raw hraw,
      List.length_take, maxToolNameLength]
    omega

theorem DigestOn.prettyName_isToolName (h : DigestOn sha1Hex names)
    {tool : ToolInfo} (hraw : tool.rawName ∈ names) :
    IsToolName (tool.prettyName sha1Hex) ∧
      (tool.prettyName sha1Hex).byteLen ≤ maxToolNameLength := by
  simp only [ToolInfo.prettyName]
  split
  next => exact h.appendSha1Suffix_isToolName (sanitize_isToolName _) hraw
  next hshort => exact ⟨sanitize_isToolName _, Nat.le_of_not_lt hshort⟩

theorem DigestOn.disambiguatedName_isToolName (h : DigestOn sha1Hex names)
    {tool : ToolInfo} (hraw : tool.rawName ∈ names) :
    IsToolName (tool.disambiguatedName sha1Hex) ∧
      (tool.disambiguatedName sha1Hex).byteLen ≤ maxToolNameLength :=
  h.appendSha1Suffix_isToolName (h.prettyName_isToolName hraw).1 hraw

theorem DigestOn.disambiguatedName_injective (h : DigestOn sha1Hex names)
    {tool other : ToolInfo}
    (hraw : tool.rawName ∈ names) (hother : other.rawName ∈ names)
    (heq : tool.disambiguatedName sha1Hex = other.disambiguatedName sha1Hex) :
    tool.rawName = other.rawName := by
  rw [ToolInfo.disambiguatedName, ToolInfo.disambiguatedName,
    h.appendSha1Suffix_eq (h.prettyName_isToolName hraw).1.2 hraw,
    h.appendSha1Suffix_eq (h.prettyName_isToolName hother).1.2 hother] at heq
  have hdigest := (List.append_inj' heq
    ((h.length_eq _ hraw).trans (h.length_eq _ hother).symm)).2
  exact h.injective _ hraw _ hother hdigest

end Names

/-! ## Tools of different raw names -/

/-- The first tool of each raw name. -/
def distinctTools (tools : List ToolInfo) : List ToolInfo :=
  tools.foldl (fun kept tool =>
    if tool.rawName ∈ kept.map (·.rawName) then kept else kept ++ [tool]) []

theorem distinctTools_concat (tools : List ToolInfo) (tool : ToolInfo) :
    distinctTools (tools ++ [tool]) =
      if tool.rawName ∈ (distinctTools tools).map (·.rawName) then
        distinctTools tools
      else distinctTools tools ++ [tool] :=
  List.foldl_concat ..

theorem mem_rawNames_distinctTools {tools : List ToolInfo} {raw : Text} :
    raw ∈ (distinctTools tools).map (·.rawName) ↔
      raw ∈ tools.map (·.rawName) := by
  induction tools using List.reverseRecOn with
  | nil => rfl
  | append_singleton tools tool ih =>
      rw [distinctTools_concat, List.map_append, List.mem_append, ← ih]
      split
      next hseen =>
        constructor
        · exact .inl
        · rintro (hraw | hraw)
          · exact hraw
          · rwa [List.mem_singleton.1 hraw]
      next => rw [List.map_append, List.mem_append]

theorem nodup_rawNames_distinctTools (tools : List ToolInfo) :
    ((distinctTools tools).map (·.rawName)).Nodup := by
  induction tools using List.reverseRecOn with
  | nil => exact List.nodup_nil
  | append_singleton tools tool ih =>
      rw [distinctTools_concat]
      split
      next => exact ih
      next hfresh =>
        rw [List.map_append, List.nodup_append]
        refine ⟨ih, List.pairwise_singleton _ _, ?_⟩
        rintro raw hraw _ htool rfl
        rw [List.map_singleton, List.mem_singleton] at htool
        exact hfresh (htool ▸ hraw)

theorem mem_distinctTools {tools : List ToolInfo} {tool : ToolInfo} :
    tool ∈ distinctTools tools ↔
      ∃ before after, tools = before ++ tool :: after ∧
        tool.rawName ∉ before.map (·.rawName) := by
  induction tools using List.reverseRecOn with
  | nil =>
      constructor
      · intro h
        cases h
      · rintro ⟨before, after, hnil, -⟩
        cases before <;> cases hnil
  | append_singleton tools last ih =>
      have hconcat : tool ∈ distinctTools (tools ++ [last]) ↔
          tool ∈ distinctTools tools ∨
            (tool = last ∧ last.rawName ∉ tools.map (·.rawName)) := by
        rw [distinctTools_concat]
        split
        next hseen => simp [mem_rawNames_distinctTools.1 hseen]
        next hfresh =>
          have hfresh' := mt mem_rawNames_distinctTools.2 hfresh
          rw [List.mem_append, List.mem_singleton, and_iff_left hfresh']
      rw [hconcat, ih]
      constructor
      · rintro (⟨before, after, rfl, hfresh⟩ | ⟨rfl, hfresh⟩)
        · exact ⟨before, after ++ [last],
            by rw [List.append_assoc, List.cons_append], hfresh⟩
        · exact ⟨tools, [], rfl, hfresh⟩
      · rintro ⟨before, after, hsplit, hfresh⟩
        rcases concat_eq_append_cons.1 hsplit with
          ⟨rfl, rfl, rfl⟩ | ⟨between, rfl, rfl⟩
        · exact Or.inr ⟨rfl, hfresh⟩
        · exact Or.inl ⟨before, between, rfl, hfresh⟩

/-! ## The loop -/

section Loop

variable (sha1Hex : Text → Text)

/-- The names of tools of different raw names. -/
def assignedNames (tools : List ToolInfo) : List (Text × ToolInfo) :=
  Naming.assign (ToolInfo.prettyName sha1Hex)
    (ToolInfo.disambiguatedName sha1Hex) tools

/-- The sets and the map after tools of different raw names. -/
structure QualifyState.Holds (tools : List ToolInfo)
    (s : QualifyState) : Prop where
  mem_seenRawNames : ∀ raw, raw ∈ s.seenRawNames ↔ raw ∈ tools.map (·.rawName)
  mem_usedNames : ∀ name, name ∈ s.usedNames ↔
    name ∈ (assignedNames sha1Hex tools).map (·.1)
  qualifiedTools_eq : ∀ name tool, s.qualifiedTools name = some tool ↔
    (name, tool) ∈ assignedNames sha1Hex tools

variable {sha1Hex} {s : QualifyState} {tools : List ToolInfo} {tool : ToolInfo}

theorem QualifyState.Holds.insert (h : s.Holds sha1Hex tools) {name : Text}
    (hname : Naming.name? (ToolInfo.prettyName sha1Hex)
      (ToolInfo.disambiguatedName sha1Hex)
      ((assignedNames sha1Hex tools).map (·.1)) tool = some name)
    (hfresh : name ∉ s.usedNames) :
    QualifyState.Holds sha1Hex (tools ++ [tool])
      ({ s with
        seenRawNames := tool.rawName :: s.seenRawNames }.insert name tool) := by
  have hassign : assignedNames sha1Hex (tools ++ [tool]) =
      assignedNames sha1Hex tools ++ [(name, tool)] := by
    rw [assignedNames] at hname
    rw [assignedNames, Naming.assign_concat, hname]
    rfl
  refine ⟨fun raw => ?_, fun other => ?_, fun other found => ?_⟩
  · rw [List.map_append, List.mem_append, ← h.mem_seenRawNames,
      List.map_singleton,
      List.mem_singleton, or_comm]
    exact List.mem_cons
  · rw [hassign, List.map_append, List.mem_append, ← h.mem_usedNames,
      List.map_singleton,
      List.mem_singleton, or_comm]
    exact List.mem_cons
  · rw [hassign, List.mem_append, List.mem_singleton, ← h.qualifiedTools_eq,
      Prod.mk.injEq]
    change s.qualifiedTools.insert name tool other = some found ↔ _
    by_cases hother : other = name
    · subst hother
      have hnone : s.qualifiedTools other ≠ some found := by
        intro hsome
        rw [h.mem_usedNames] at hfresh
        exact hfresh (List.mem_map_of_mem ((h.qualifiedTools_eq _ _).1 hsome))
      rw [PartialMap.insert_self, Option.some.injEq]
      simp [hnone, eq_comm]
    · rw [PartialMap.insert_of_ne hother]
      simp [hother]

theorem QualifyState.Holds.skip (h : s.Holds sha1Hex tools)
    (hname : Naming.name? (ToolInfo.prettyName sha1Hex)
      (ToolInfo.disambiguatedName sha1Hex)
      ((assignedNames sha1Hex tools).map (·.1)) tool = none) :
    QualifyState.Holds sha1Hex (tools ++ [tool])
      { s with seenRawNames := tool.rawName :: s.seenRawNames } := by
  have hassign : assignedNames sha1Hex (tools ++ [tool]) =
      assignedNames sha1Hex tools := by
    rw [assignedNames] at hname
    rw [assignedNames, Naming.assign_concat, hname]
    exact List.append_nil _
  refine ⟨fun raw => ?_, ?_, ?_⟩
  · rw [List.map_append, List.mem_append, ← h.mem_seenRawNames,
      List.map_singleton,
      List.mem_singleton, or_comm]
    exact List.mem_cons
  · rw [hassign]
    exact h.mem_usedNames
  · rw [hassign]
    exact h.qualifiedTools_eq

theorem QualifyState.Holds.qualifyTool (h : s.Holds sha1Hex tools)
    (tool : ToolInfo) :
    (Mcp.qualifyTool sha1Hex s tool).Holds sha1Hex
      (if tool.rawName ∈ tools.map (·.rawName) then tools
        else tools ++ [tool]) := by
  by_cases hseen : tool.rawName ∈ s.seenRawNames
  · rw [Mcp.qualifyTool, if_pos hseen, if_pos ((h.mem_seenRawNames _).1 hseen)]
    exact h
  · have hnew : tool.rawName ∉ tools.map (·.rawName) := fun hmem =>
      hseen ((h.mem_seenRawNames _).2 hmem)
    rw [Mcp.qualifyTool, if_neg hseen, if_neg hnew]
    by_cases hpretty : tool.prettyName sha1Hex ∈ s.usedNames
    · have hprettyUsed := (h.mem_usedNames _).1 hpretty
      by_cases hother : tool.disambiguatedName sha1Hex ∈ s.usedNames
      · simp only [if_pos hpretty, if_pos hother]
        exact h.skip (Naming.name?_eq_none.2 ⟨hprettyUsed,
          (h.mem_usedNames _).1 hother⟩)
      · simp only [if_pos hpretty, if_neg hother]
        refine h.insert
          (Naming.name?_eq_some.2 (.inr ⟨hprettyUsed, ?_, rfl⟩)) hother
        exact fun hused => hother ((h.mem_usedNames _).2 hused)
    · simp only [if_neg hpretty]
      refine h.insert (Naming.name?_eq_some.2 (.inl ⟨?_, rfl⟩)) hpretty
      exact fun hused => hpretty ((h.mem_usedNames _).2 hused)

theorem foldl_qualifyTool_holds (tools : List ToolInfo) :
    (tools.foldl (qualifyTool sha1Hex) {}).Holds sha1Hex
      (distinctTools tools) := by
  induction tools using List.reverseRecOn with
  | nil =>
      exact ⟨fun _ => Iff.rfl, fun _ => Iff.rfl,
        fun _ _ => ⟨fun h => (by cases h),
        fun h => (by cases h)⟩⟩
  | append_singleton tools tool ih =>
      rw [List.foldl_concat, distinctTools_concat]
      exact ih.qualifyTool tool

theorem qualifyTools_eq_some {name : Text} :
    qualifyTools sha1Hex tools name = some tool ↔
      (name, tool) ∈ assignedNames sha1Hex (distinctTools tools) :=
  (foldl_qualifyTool_holds tools).qualifiedTools_eq name tool

end Loop

/-! ## Which tools are dropped -/

/-- The tools under their names: the names are ones that the Responses API
takes, no two tools share one, and every tool that is not an exact duplicate of
an earlier one has exactly one. -/
structure Qualifies (tools : List ToolInfo)
    (qualified : PartialMap Text ToolInfo) : Prop where
  isToolName : ∀ name tool, qualified name = some tool →
    IsToolName name ∧ name.byteLen ≤ maxToolNameLength
  unshared : ∀ name tool other, qualified name = some tool →
    qualified name = some other →
    tool = other
  present : ∀ before tool after, tools = before ++ tool :: after →
    tool.rawName ∉ before.map (·.rawName) → ∃! name, qualified name = some tool

/-- A tool has its pretty name claimed by earlier tools, by their pretty names
or by the disambiguated names of such tools, and an earlier tool has its
disambiguated name as its pretty name. -/
def Crowded (sha1Hex : Text → Text) (tools : List ToolInfo) : Prop :=
  ∃ before tool after, distinctTools tools = before ++ tool :: after ∧
    Naming.Claimed (ToolInfo.prettyName sha1Hex)
      (ToolInfo.disambiguatedName sha1Hex) before
      (tool.prettyName sha1Hex) ∧
    ∃ other ∈ before, other.prettyName sha1Hex = tool.disambiguatedName sha1Hex

section Crowded

variable {sha1Hex : Text → Text} {tools : List ToolInfo}

theorem rawName_mem_of_distinct {tool : ToolInfo}
    (h : tool ∈ distinctTools tools) :
    tool.rawName ∈ tools.map (·.rawName) :=
  mem_rawNames_distinctTools.1 (List.mem_map_of_mem h)

/-- Both names of a tool are used already exactly if the tool is crowded out. -/
theorem blocked_iff_crowded (h : DigestOn sha1Hex (tools.map (·.rawName))) :
    Naming.Blocked (ToolInfo.prettyName sha1Hex)
      (ToolInfo.disambiguatedName sha1Hex)
      (distinctTools tools) ↔ Crowded sha1Hex tools := by
  constructor
  · rintro ⟨before, tool, after, hsplit, hpretty, hother⟩
    refine ⟨before, tool, after, hsplit, hpretty, ?_⟩
    generalize hname : tool.disambiguatedName sha1Hex = name at hother
    cases hother with
    | first hmem => exact ⟨_, hmem, rfl⟩
    | @second earlier other later _ =>
        have htool : tool ∈ distinctTools tools := by simp [hsplit]
        have hotherMem : other ∈ distinctTools tools := by simp [hsplit]
        have hraw :=
          h.disambiguatedName_injective (rawName_mem_of_distinct htool)
            (rawName_mem_of_distinct hotherMem) hname
        have hnodup := nodup_rawNames_distinctTools tools
        rw [hsplit, List.map_append, List.nodup_append] at hnodup
        exact absurd hraw.symm (hnodup.2.2 _ (List.mem_map_of_mem (by simp)) _
          (List.mem_cons_self ..))
  · rintro ⟨before, tool, after, hsplit, hpretty, other, hmem, hother⟩
    exact ⟨before, tool, after, hsplit, hpretty, hother ▸ .first hmem⟩

/-- Every tool has one name exactly if none is crowded out. -/
theorem qualifies_iff (h : DigestOn sha1Hex (tools.map (·.rawName))) :
    Qualifies tools (qualifyTools sha1Hex tools) ↔ ¬ Crowded sha1Hex tools := by
  have hnodup : (distinctTools tools).Nodup :=
    List.Nodup.of_map _ (nodup_rawNames_distinctTools tools)
  rw [← blocked_iff_crowded h, ← Naming.forall_mem_assign_iff hnodup]
  constructor
  · intro hqualifies tool htool
    obtain ⟨before, after, hsplit, hfresh⟩ := mem_distinctTools.1 htool
    obtain ⟨name, hname, -⟩ :=
      hqualifies.present before tool after hsplit hfresh
    exact ⟨name, qualifyTools_eq_some.1 hname⟩
  · intro hall
    refine ⟨fun name tool hname => ?_, fun name tool other htool hother => ?_,
      fun before tool after hsplit hfresh => ?_⟩
    · obtain ⟨hmem, heq⟩ := Naming.of_mem_assign (qualifyTools_eq_some.1 hname)
      have hraw := rawName_mem_of_distinct hmem
      rcases heq with rfl | rfl
      · exact h.prettyName_isToolName hraw
      · exact h.disambiguatedName_isToolName hraw
    · rw [htool] at hother
      exact Option.some.inj hother
    · obtain ⟨name, hname⟩ :=
        hall tool (mem_distinctTools.2 ⟨before, after, hsplit, hfresh⟩)
      refine ⟨name, qualifyTools_eq_some.2 hname, fun other hother => ?_⟩
      exact Naming.assign_unique_name hnodup
        (qualifyTools_eq_some.1 hother) hname

end Crowded

/-! ## A tool that is dropped -/

/-- The digests of the raw names of `crowdedTools`. -/
def crowdedDigest (raw : Text) : Text :=
  if raw = "a__b_c6bcff4a99d1f2c51686f7eae6eef7d6cb0076dd5".toList then
    "b157a38b1763050911d5f3d6d21bd70848f6a9f5".toList
  else if raw = "a__b_c".toList then
    "e9e544b73ec493226c5dd110929135a4a8ce729e".toList
  else "6bcff4a99d1f2c51686f7eae6eef7d6cb0076dd5".toList

def toolOf (serverName toolName : Text) : ToolInfo :=
  ⟨serverName, toolName, ⟨toolName, none⟩⟩

/-- The tools of a server that knows the digest of `a__b.c`. -/
def crowdedTools : List ToolInfo :=
  [toolOf "a".toList "b_c6bcff4a99d1f2c51686f7eae6eef7d6cb0076dd5".toList,
    toolOf "a".toList "b_c".toList, toolOf "a".toList "b.c".toList]

/-- The tool `b.c` gets no name: `a__b_c` and the name with its digest are
used. -/
theorem crowdedTools_not_qualifies :
    DigestOn crowdedDigest (crowdedTools.map (·.rawName)) ∧
      ¬ Qualifies crowdedTools (qualifyTools crowdedDigest crowdedTools) := by
  have hassigned :
      (assignedNames crowdedDigest (distinctTools crowdedTools)).map (·.2) =
      crowdedTools.take 2 := by decide
  refine ⟨.of_all (by decide) (by decide) (by decide), fun h => ?_⟩
  obtain ⟨name, hname, -⟩ :=
    h.present (crowdedTools.take 2) (toolOf "a".toList "b.c".toList) []
      rfl (by decide)
  have hmem : toolOf "a".toList "b.c".toList ∈
      (assignedNames crowdedDigest (distinctTools crowdedTools)).map (·.2) :=
    List.mem_map_of_mem (qualifyTools_eq_some.1 hname)
  rw [hassigned] at hmem
  exact absurd hmem (by decide)

/-- Two tools whose pretty names collide. -/
theorem qualifies_iff_collision :
    DigestOn crowdedDigest ((crowdedTools.drop 1).map (·.rawName)) ∧
      (Qualifies (crowdedTools.drop 1)
        (qualifyTools crowdedDigest (crowdedTools.drop 1)) ↔
        ¬ Crowded crowdedDigest (crowdedTools.drop 1)) :=
  have h : DigestOn crowdedDigest ((crowdedTools.drop 1).map (·.rawName)) :=
    .of_all (by decide) (by decide) (by decide)
  ⟨h, qualifies_iff h⟩

end CodeRs.Mcp

/-! ## Names and the order of the answers

The servers answer in any order.  A tool has the same name in every order
exactly if no two pretty names are the same: of two tools with one pretty name
the one that comes first gets it. -/

namespace CodeRs.Mcp

/-- Every tool has the same name in every order of the tools. -/
def OrderIndependent (sha1Hex : Text → Text) (tools : List ToolInfo) : Prop :=
  ∀ first second : List ToolInfo, first.Perm tools → second.Perm tools →
    ∀ name tool, qualifyTools sha1Hex first name = some tool ↔
      qualifyTools sha1Hex second name = some tool

section

variable {sha1Hex : Text → Text} {tools : List ToolInfo}

theorem distinctTools_eq_self (h : (tools.map (·.rawName)).Nodup) :
    distinctTools tools = tools := by
  induction tools using List.reverseRecOn with
  | nil => rfl
  | append_singleton tools tool ih =>
      rw [List.map_append, List.nodup_append] at h
      rw [distinctTools_concat, ih h.1, if_neg]
      intro hmem
      exact h.2.2 _ hmem _ (List.mem_singleton_self _) rfl

/-- The order does not matter exactly if the pretty names are different. -/
theorem orderIndependent_iff (h : (tools.map (·.rawName)).Nodup) :
    OrderIndependent sha1Hex tools ↔
      (tools.map (ToolInfo.prettyName sha1Hex)).Nodup := by
  rw [← @Naming.assign_perm_iff _ _ _ _
    (ToolInfo.disambiguatedName sha1Hex) tools
    (List.Nodup.of_map _ h)]
  have hself {perm : List ToolInfo} (hperm : perm.Perm tools) :
      distinctTools perm = perm :=
    distinctTools_eq_self ((hperm.map _).nodup_iff.2 h)
  constructor
  · rintro hall first second hfirst hsecond ⟨name, tool⟩
    have hsame := hall first second hfirst hsecond name tool
    rw [qualifyTools_eq_some, qualifyTools_eq_some, hself hfirst,
      hself hsecond] at hsame
    exact hsame
  · intro hall first second hfirst hsecond name tool
    rw [qualifyTools_eq_some, qualifyTools_eq_some, hself hfirst, hself hsecond]
    exact hall first second hfirst hsecond (name, tool)

/-- The digests of `a__.b` and `a___b`. -/
def collidingDigest (raw : Text) : Text :=
  if raw = "a__.b".toList then "8fd06e73a5cca3250867e034d7e8939e6bdcfa8e".toList
  else "cacf0d6214ccd9100d73cc15623bac8ecb5cd009".toList

/-- Two tools with one pretty name. -/
theorem orderIndependent_iff_colliding :
    OrderIndependent collidingDigest
        [toolOf "a".toList ".b".toList, toolOf "a_".toList "b".toList] ↔
      ([toolOf "a".toList ".b".toList, toolOf "a_".toList "b".toList].map
        (ToolInfo.prettyName collidingDigest)).Nodup :=
  orderIndependent_iff (by decide)

/-! ## The answers -/

def answerTools (excludedTools : List (Text × Text)) :
    Option Answer → List ToolInfo
  | none => []
  | some answer =>
      match answer.listResult with
      | .ok tools => answer.toolInfos excludedTools tools
      | .error _ => []

theorem listAnswer_aggregated (excludedTools : List (Text × Text))
    (listing : Listing)
    (answer : Option Answer) :
    (listAnswer excludedTools listing answer).aggregated =
      listing.aggregated ++ answerTools excludedTools answer := by
  cases answer with
  | none => exact (List.append_nil _).symm
  | some answer =>
      simp only [listAnswer, answerTools]
      cases answer.listResult with
      | ok tools => rfl
      | error message => exact (List.append_nil _).symm

theorem listAllTools_aggregated (excludedTools : List (Text × Text))
    (errors : PartialMap Text McpServerFailure)
    (answers : List (Option Answer)) :
    (listAllTools excludedTools errors answers).aggregated =
      answers.flatMap (answerTools excludedTools) := by
  induction answers using List.reverseRecOn with
  | nil => rfl
  | append_singleton answers answer ih =>
      have hconcat : listAllTools excludedTools errors (answers ++ [answer]) =
          listAnswer excludedTools (listAllTools excludedTools errors answers)
            answer :=
        List.foldl_concat ..
      rw [hconcat, listAnswer_aggregated, ih, List.flatMap_append,
        List.flatMap_singleton]

theorem listAllTools_perm (excludedTools : List (Text × Text))
    (errors : PartialMap Text McpServerFailure)
    {answers answers' : List (Option Answer)}
    (h : answers.Perm answers') :
    (listAllTools excludedTools errors answers).aggregated.Perm
      (listAllTools excludedTools errors answers').aggregated := by
  rw [listAllTools_aggregated, listAllTools_aggregated]
  exact h.flatMap_right _

/-- Two servers with a tool each. -/
def collidingAnswers : List (Option Answer) :=
  [some ⟨"a".toList, {}, .ok [⟨".b".toList, none⟩]⟩,
    some ⟨"a_".toList, {}, .ok [⟨"b".toList, none⟩]⟩]

/-- The name `a___b` belongs to the tool of the server that answers first. -/
theorem collidingAnswers_not_orderIndependent :
    let tools := (listAllTools [] (fun _ => none) collidingAnswers).aggregated
    DigestOn collidingDigest (tools.map (·.rawName)) ∧
      (tools.map (·.rawName)).Nodup ∧
      ¬ OrderIndependent collidingDigest tools := by
  refine ⟨.of_all (by decide) (by decide) (by decide), by decide, fun h => ?_⟩
  have hreverse :=
    listAllTools_perm [] (fun _ => none) (List.reverse_perm collidingAnswers)
  have hfirst := (h _ _ (List.Perm.refl _) hreverse "a___b".toList
    (toolOf "a".toList ".b".toList)).1 (qualifyTools_eq_some.2 (by decide))
  exact absurd (qualifyTools_eq_some.1 hfirst) (by decide)

end

end CodeRs.Mcp
