import AgentsServer.TeamHub.Replay
import Mathlib.Data.List.Infix

/-!
# The versions of a skill

The versions of a skill are numbered from one without gaps, and its row shows the
last of them. A version is published only by a request that names the version
before it.
-/

namespace AgentsServer.TeamHub

open Library

/-! ## What holds after every run -/

/-- The row of a skill repeats a version row, which names the message that published it. -/
structure Shows (s : SkillRow) (v : SkillVersionRow) (m : MessageRow) : Prop where
  skill : v.skillId = s.id
  team : v.teamId = s.teamId
  version : v.version = s.currentVersion
  title : v.title = s.title
  summary : v.summary = s.summary
  tags : v.tags = s.tags
  message : m.id = v.messageId
  messageTeam : m.teamId = v.teamId
  content : m.content = .skill v.title v.skillId v.version

structure Hub.SkillsSound (h : Hub) : Prop where
  ids : (h.skills.map SkillRow.id).Nodup
  messageIds : (h.messages.map MessageRow.id).Nodup
  numbered : ∀ s ∈ h.skills,
    (h.versionsOf s.id).map SkillVersionRow.version = List.range' 1 s.currentVersion
  owned : ∀ v ∈ h.skillVersions, ∃ s ∈ h.skills, s.id = v.skillId
  shown : ∀ s ∈ h.skills, ∃ v ∈ h.skillVersions, ∃ m ∈ h.messages, Shows s v m

namespace Hub

variable {h : Hub}

theorem empty_skills : Hub.empty.SkillsSound where
  ids := List.nodup_nil
  messageIds := List.nodup_nil
  numbered := by simp [Hub.empty]
  owned := by simp [Hub.empty]
  shown := by simp [Hub.empty]

/-- A message is found by its team and id. -/
theorem message?_of_mem (messageIds : (h.messages.map MessageRow.id).Nodup) {m : MessageRow}
    (hm : m ∈ h.messages) : h.message? m.teamId m.id = some m := by
  apply Tables.find?_of_only hm
  · simp
  · intro other hother he
    simp only [decide_eq_true_eq] at he
    exact Tables.eq_of_key messageIds hother hm he.2

/-- The version rows of a skill have different numbers. -/
theorem SkillsSound.only_version (hs : h.SkillsSound) {s : SkillRow} (hmem : s ∈ h.skills)
    {v w : SkillVersionRow} (hv : v ∈ h.skillVersions) (hw : w ∈ h.skillVersions)
    (hvs : v.skillId = s.id) (hws : w.skillId = s.id) (he : v.version = w.version) : v = w := by
  have unique : ((h.versionsOf s.id).map SkillVersionRow.version).Nodup := by
    rw [hs.numbered s hmem]
    exact List.nodup_range'
  have member : ∀ u ∈ h.skillVersions, u.skillId = s.id → u ∈ h.versionsOf s.id := by
    intro u hu hus
    exact List.mem_filter.mpr ⟨hu, by simpa using hus⟩
  exact Tables.eq_of_key unique (member v hv hvs) (member w hw hws) he

/-- What readers see of a skill is the version that its row shows. -/
theorem SkillsSound.currentSkillPost? (hs : h.SkillsSound) {s : SkillRow}
    (hmem : s ∈ h.skills) {v : SkillVersionRow} {m : MessageRow} (hv : v ∈ h.skillVersions)
    (hm : m ∈ h.messages) (hshows : Shows s v m) : h.currentSkillPost? s = some (v, m) := by
  have hversion : h.skillVersions.find? (fun v => decide (v.teamId = s.teamId ∧
      v.skillId = s.id ∧ v.version = s.currentVersion)) = some v := by
    apply Tables.find?_of_only hv
    · simp [hshows.team, hshows.skill, hshows.version]
    · intro w hw he
      simp only [decide_eq_true_eq] at he
      exact hs.only_version hmem hw hv he.2.1 hshows.skill (he.2.2.trans hshows.version.symm)
  have hmessage : h.message? v.teamId v.messageId = some m := by
    rw [← hshows.message, ← hshows.messageTeam]
    exact message?_of_mem hs.messageIds hm
  unfold Hub.currentSkillPost?
  rw [hversion, Option.bind_eq_bind, Option.bind_some, hmessage]
  rfl

end Hub

/-! ## What one call does to the skills -/

/-- The call asks for a version of a skill. -/
structure Call.Publishes [Sha256] [UnicodeTables] [Conversions] (call : Call)
    (request : CreateRequest) (title : String) (details : SkillDetails) : Prop where
  operation : ∃ fields, call.operation = .create fields ∧ createRequest fields = .ok request
  content : request.content = .skill title details

/-- The skill is what the request made it. -/
structure Hub.AsRequested (h : Hub) (s : SkillRow) (request : CreateRequest) (title : String)
    (details : SkillDetails) : Prop where
  title : s.title = title
  summary : s.summary = details.summary
  tags : s.tags = details.tags
  body : ∃ v m, h.currentSkillPost? s = some (v, m) ∧ m.body = request.body

/-- The parts of a skill row that only a new version writes. -/
structure SkillRow.Keeps (s r : SkillRow) : Prop where
  id : r.id = s.id
  team : r.teamId = s.teamId
  title : r.title = s.title
  summary : r.summary = s.summary
  tags : r.tags = s.tags
  version : r.currentVersion = s.currentVersion

theorem SkillRow.Keeps.refl (s : SkillRow) : s.Keeps s :=
  ⟨rfl, rfl, rfl, rfl, rfl, rfl⟩

theorem SkillRow.Keeps.shows {s r : SkillRow} (hr : s.Keeps r) {v : SkillVersionRow}
    {m : MessageRow} (hs : Shows s v m) : Shows r v m where
  skill := hs.skill.trans hr.id.symm
  team := hs.team.trans hr.team.symm
  version := hs.version.trans hr.version.symm
  title := hs.title.trans hr.title.symm
  summary := hs.summary.trans hr.summary.symm
  tags := hs.tags.trans hr.tags.symm
  message := hs.message
  messageTeam := hs.messageTeam
  content := hs.content

theorem SkillRow.keeps_setFlag (flag : SkillFlag) (value : Bool) (timestamp : Nat)
    (s : SkillRow) : s.Keeps (s.setFlag flag value timestamp) := by
  cases flag with
  | pinned =>
      dsimp only [SkillRow.setFlag]
      by_cases hsame : value = s.pinnedAt.isSome
      · rw [if_pos hsame]
        exact .refl s
      · rw [if_neg hsame]
        exact ⟨rfl, rfl, rfl, rfl, rfl, rfl⟩
  | archived =>
      dsimp only [SkillRow.setFlag]
      by_cases hsame : value = s.archivedAt.isSome
      · rw [if_pos hsame]
        exact .refl s
      · rw [if_neg hsame]
        exact ⟨rfl, rfl, rfl, rfl, rfl, rfl⟩

/-- Versions are only added. A skill stays as it is, or is made what a request
asked for that named its version. -/
structure Hub.SkillsContinue [Sha256] [UnicodeTables] [Conversions] (h : Hub) (call : Call)
    (t : Hub) : Prop where
  versions : h.skillVersions <+: t.skillVersions
  old : ∀ s ∈ h.skills, ∃ r ∈ t.skills, r.id = s.id ∧
    ((s.Keeps r ∧ t.currentSkillPost? r = h.currentSkillPost? s) ∨
      ∃ request title details, call.Publishes request title details ∧
        details.expectedVersion = some s.currentVersion ∧
        r.currentVersion = s.currentVersion + 1 ∧ t.AsRequested r request title details)
  new : ∀ r ∈ t.skills, (∃ s ∈ h.skills, s.id = r.id) ∨
    ∃ request title details, call.Publishes request title details ∧
      details.expectedVersion = none ∧ r.currentVersion = 1 ∧
      t.AsRequested r request title details

namespace Hub

variable [Sha256] [UnicodeTables] [Conversions] {h t : Hub} {call : Call}

/-- No version is published. -/
theorem SkillsSound.same (hs : h.SkillsSound) {f : SkillRow → SkillRow}
    (skills : t.skills = h.skills.map f) (keeps : ∀ s ∈ h.skills, s.Keeps (f s))
    (versions : t.skillVersions = h.skillVersions) (messages : h.messages <+: t.messages)
    (messageIds : (t.messages.map MessageRow.id).Nodup) :
    t.SkillsSound ∧ h.SkillsContinue call t := by
  have hids : t.skills.map SkillRow.id = h.skills.map SkillRow.id := by
    rw [skills, List.map_map]
    exact List.map_congr_left fun s hmem => (keeps s hmem).id
  have hshown : ∀ s ∈ h.skills, ∀ v ∈ h.skillVersions, ∀ m ∈ h.messages, Shows s v m →
      v ∈ t.skillVersions ∧ m ∈ t.messages ∧ Shows (f s) v m := by
    intro s hmem v hv m hm hshows
    exact ⟨versions ▸ hv, messages.subset hm, (keeps s hmem).shows hshows⟩
  have ht : t.SkillsSound := by
    constructor
    · rw [hids]
      exact hs.ids
    · exact messageIds
    · intro r hr
      rw [skills] at hr
      obtain ⟨s, hmem, rfl⟩ := List.mem_map.mp hr
      rw [(keeps s hmem).id, (keeps s hmem).version, versionsOf, versions]
      exact hs.numbered s hmem
    · intro v hv
      rw [versions] at hv
      obtain ⟨s, hmem, hsv⟩ := hs.owned v hv
      refine ⟨f s, ?_, (keeps s hmem).id.trans hsv⟩
      rw [skills]
      exact List.mem_map_of_mem hmem
    · intro r hr
      rw [skills] at hr
      obtain ⟨s, hmem, rfl⟩ := List.mem_map.mp hr
      obtain ⟨v, hv, m, hm, hshows⟩ := hs.shown s hmem
      obtain ⟨hv', hm', hshows'⟩ := hshown s hmem v hv m hm hshows
      exact ⟨v, hv', m, hm', hshows'⟩
  refine ⟨ht, ?_⟩
  constructor
  · rw [versions]
  · intro s hmem
    have hr : f s ∈ t.skills := by
      rw [skills]
      exact List.mem_map_of_mem hmem
    refine ⟨f s, hr, (keeps s hmem).id, Or.inl ⟨keeps s hmem, ?_⟩⟩
    obtain ⟨v, hv, m, hm, hshows⟩ := hs.shown s hmem
    obtain ⟨hv', hm', hshows'⟩ := hshown s hmem v hv m hm hshows
    rw [ht.currentSkillPost? hr hv' hm' hshows', hs.currentSkillPost? hmem hv hm hshows]
  · intro r hr
    rw [skills] at hr
    obtain ⟨s, hmem, rfl⟩ := List.mem_map.mp hr
    exact Or.inl ⟨s, hmem, (keeps s hmem).id.symm⟩

end Hub

/-! ## Publishing a version -/

/-- The skill rows after a version was published: one row shows it, and the others
are as they were. -/
structure SkillWritten (h : Hub) (call : Call) (title : String) (details : SkillDetails)
    (skills : List SkillRow) (s : SkillRow) : Prop where
  row : s ∈ skills
  team : s.teamId = call.teamId
  title : s.title = title
  summary : s.summary = details.summary
  tags : s.tags = details.tags
  others : ∀ r ∈ skills, r = s ∨ r ∈ h.skills ∧ r.id ≠ s.id
  kept : ∀ r ∈ h.skills, r.id = s.id ∨ r ∈ skills
  ids : (skills.map SkillRow.id).Nodup
  follows : (s.currentVersion = 1 ∧ details.expectedVersion = none ∧ ∀ r ∈ h.skills, r.id ≠ s.id) ∨
    ∃ r ∈ h.skills, r.id = s.id ∧ s.currentVersion = r.currentVersion + 1 ∧
      details.expectedVersion = some r.currentVersion

theorem SkillWrite.written {h : Hub} {call : Call} {title : String} {details : SkillDetails}
    {skills : List SkillRow} {id : String} {version : Nat}
    (write : SkillWrite h call title details skills id version)
    (ids : (h.skills.map SkillRow.id).Nodup) :
    ∃ s, SkillWritten h call title details skills s ∧ s.id = id ∧
      s.currentVersion = version := by
  cases write with
  | @first row expected fresh team shown one =>
      refine ⟨row, ?_, rfl, one⟩
      constructor
      · simp
      · exact team
      · exact shown.1
      · exact shown.2.1
      · exact shown.2.2
      · intro r hr
        rcases List.mem_append.mp hr with hr | hr
        · exact Or.inr ⟨hr, fresh r hr⟩
        · exact Or.inl (List.mem_singleton.mp hr)
      · intro r hr
        exact Or.inr (List.mem_append_left _ hr)
      · exact Tables.nodup_append_row ids fresh
      · exact Or.inl ⟨one, expected, fresh⟩
  | @next s found team expected =>
      have hother : ∀ r ∈ h.skills, r.id ≠ s.id → ¬ (r.teamId = call.teamId ∧ r.id = s.id) :=
        fun r _ hne he => hne he.2
      refine ⟨Hub.publishVersion title details (s.currentVersion + 1) call.context.timestamp s,
        ?_, rfl, rfl⟩
      constructor
      · refine List.mem_map.mpr ⟨s, found, ?_⟩
        rw [if_pos ⟨team, rfl⟩]
      · exact team
      · rfl
      · rfl
      · rfl
      · intro r hr
        obtain ⟨old, hold, rfl⟩ := List.mem_map.mp hr
        by_cases hid : old.id = s.id
        · have heq : old = s := Tables.eq_of_key ids hold found hid
          rw [heq, if_pos ⟨team, rfl⟩]
          exact Or.inl rfl
        · rw [if_neg (hother old hold hid)]
          exact Or.inr ⟨hold, hid⟩
      · intro r hr
        by_cases hid : r.id = s.id
        · exact Or.inl hid
        · refine Or.inr (List.mem_map.mpr ⟨r, hr, ?_⟩)
          rw [if_neg (hother r hr hid)]
      · rw [Tables.map_keys]
        · exact ids
        · intro r
          split
          · rfl
          · rfl
      · exact Or.inr ⟨s, found, rfl, rfl, expected⟩

namespace Hub

variable [Sha256] [UnicodeTables] [Conversions] {h t : Hub} {call : Call}

omit [Sha256] [UnicodeTables] [Conversions] in
theorem versionsOf_append {v : SkillVersionRow}
    (versions : t.skillVersions = h.skillVersions ++ [v]) (id : String) :
    t.versionsOf id = h.versionsOf id ++ if v.skillId = id then [v] else [] := by
  rw [versionsOf, versions, List.filter_append, List.filter_singleton]
  by_cases he : v.skillId = id
  · simp [versionsOf, he]
  · simp [versionsOf, he]

omit [Sha256] [UnicodeTables] [Conversions] in
/-- The numbers of the versions before the one that is published. -/
theorem SkillsSound.numbered_before (hs : h.SkillsSound) {title : String}
    {details : SkillDetails} {s : SkillRow}
    (written : SkillWritten h call title details t.skills s) :
    (h.versionsOf s.id).map SkillVersionRow.version ++ [s.currentVersion] =
      List.range' 1 s.currentVersion := by
  rcases written.follows with ⟨one, _, fresh⟩ | ⟨r, hr, hid, next, _⟩
  · have hnone : h.versionsOf s.id = [] := by
      refine List.filter_eq_nil_iff.mpr ?_
      intro v hv
      obtain ⟨r, hr, hrv⟩ := hs.owned v hv
      simp only [decide_eq_true_eq]
      intro he
      exact fresh r hr (hrv.trans he)
    rw [hnone, one]
    rfl
  · rw [← hid, hs.numbered r hr, next, List.range'_1_concat, Nat.add_comm 1]

theorem SkillsSound.published (hs : h.SkillsSound) {request : CreateRequest} {title : String}
    {details : SkillDetails} {s : SkillRow} {m : MessageRow} {v : SkillVersionRow}
    (written : SkillWritten h call title details t.skills s)
    (asks : call.Publishes request title details)
    (version : IsVersion m title details s.id s.currentVersion v)
    (content : m.content = .skill title s.id s.currentVersion) (team : m.teamId = call.teamId)
    (body : m.body = request.body) (versions : t.skillVersions = h.skillVersions ++ [v])
    (messages : t.messages = h.messages ++ [m]) (fresh : ∀ old ∈ h.messages, old.id ≠ m.id) :
    t.SkillsSound ∧ h.SkillsContinue call t := by
  have hnumbered : ∀ r ∈ t.skills,
      (t.versionsOf r.id).map SkillVersionRow.version = List.range' 1 r.currentVersion := by
    intro r hr
    rw [versionsOf_append versions]
    rcases written.others r hr with rfl | ⟨hold, hne⟩
    · rw [if_pos version.skill, List.map_append, List.map_singleton, version.version]
      exact hs.numbered_before written
    · rw [if_neg fun he => hne (he.symm.trans version.skill), List.append_nil]
      exact hs.numbered r hold
  have hshows : Shows s v m :=
    { skill := version.skill, team := (version.team.trans team).trans written.team.symm
      version := version.version, title := version.title.trans written.title.symm
      summary := version.summary.trans written.summary.symm
      tags := version.tags.trans written.tags.symm, message := version.message.symm
      messageTeam := version.team.symm
      content := by rw [content, version.title, version.skill, version.version] }
  have hv : v ∈ t.skillVersions := by
    rw [versions]
    exact List.mem_append_right _ (List.mem_singleton_self v)
  have hm : m ∈ t.messages := by
    rw [messages]
    exact List.mem_append_right _ (List.mem_singleton_self m)
  have hold : ∀ w ∈ h.skillVersions, w ∈ t.skillVersions := by
    intro w hw
    rw [versions]
    exact List.mem_append_left _ hw
  have holdm : ∀ p ∈ h.messages, p ∈ t.messages := by
    intro p hp
    rw [messages]
    exact List.mem_append_left _ hp
  have ht : t.SkillsSound := by
    constructor
    · exact written.ids
    · rw [messages]
      exact Tables.nodup_append_row hs.messageIds fresh
    · exact hnumbered
    · intro w hw
      rw [versions] at hw
      rcases List.mem_append.mp hw with hw | hw
      · obtain ⟨r, hr, hrw⟩ := hs.owned w hw
        rcases written.kept r hr with hid | hr
        · exact ⟨s, written.row, hid.symm.trans hrw⟩
        · exact ⟨r, hr, hrw⟩
      · rw [List.mem_singleton.mp hw]
        exact ⟨s, written.row, version.skill.symm⟩
    · intro r hr
      rcases written.others r hr with rfl | ⟨hr, _⟩
      · exact ⟨v, hv, m, hm, hshows⟩
      · obtain ⟨w, hw, p, hp, hshown⟩ := hs.shown r hr
        exact ⟨w, hold w hw, p, holdm p hp, hshown⟩
  have hrequested : t.AsRequested s request title details :=
    { title := written.title, summary := written.summary, tags := written.tags
      body := ⟨v, m, ht.currentSkillPost? written.row hv hm hshows, body⟩ }
  refine ⟨ht, ?_⟩
  constructor
  · rw [versions]
    exact List.prefix_append _ _
  · intro r hr
    rcases written.kept r hr with hid | hkept
    · refine ⟨s, written.row, hid.symm, Or.inr ⟨request, title, details, asks, ?_⟩⟩
      rcases written.follows with ⟨_, _, fresh⟩ | ⟨p, hp, hps, next, expected⟩
      · exact absurd hid (fresh r hr)
      · have hpr : p = r := Tables.eq_of_key hs.ids hp hr (hps.trans hid.symm)
        rw [← hpr]
        exact ⟨expected, next, hrequested⟩
    · refine ⟨r, hkept, rfl, Or.inl ⟨.refl r, ?_⟩⟩
      obtain ⟨w, hw, p, hp, hshown⟩ := hs.shown r hr
      rw [hs.currentSkillPost? hr hw hp hshown,
        ht.currentSkillPost? hkept (hold w hw) (holdm p hp) hshown]
  · intro r hr
    rcases written.others r hr with rfl | ⟨hr, _⟩
    · rcases written.follows with ⟨one, expected, _⟩ | ⟨p, hp, hps, _⟩
      · exact Or.inr ⟨request, title, details, asks, expected, one, hrequested⟩
      · exact Or.inl ⟨p, hp, hps⟩
    · exact Or.inl ⟨r, hr, rfl⟩

end Hub

end AgentsServer.TeamHub
