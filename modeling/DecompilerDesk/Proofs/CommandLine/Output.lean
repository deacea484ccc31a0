-- SUMMARY: The JSON that a successful run prints holds its findings as they are, with distinct sections selected by their analysis.
import DecompilerDesk.Proofs.CommandLine.Course
import DecompilerDesk.Proofs.Json.Forms
import DecompilerDesk.Proofs.Json.Sorted

/-!
# The output of a run

The findings of a session go into one document, whose members and theirs are sorted before it is
printed. The document is read back as it was printed, and from its members come the sections, the
inspection and the decompilation of the session, whatever the engine sent for them.
-/

namespace DecompilerDesk

open Json (Plain maxDepth)

namespace Report

/-! ## One document -/

/-- The members of a document give the findings of a session. -/
structure Tells (session : Session) (members : List (String × Json)) : Prop where
  sections : (Json.find? "sections" members).map KnownSection.codec.list.ofJson =
    some (.ok session.sections)
  inspect : (Json.find? "inspect" members).map Lowering.codec.list.ofJson =
    some (.ok session.lowerings)
  decompiled : (Json.find? "decompiled" members).map Decompilation.codec.optional.ofJson =
    some (.ok (session.shown.map (·.findings)))

theorem lawful_sections : KnownSection.codec.list.Lawful 126 :=
  Json.Codec.lawful_list (KnownSection.lawful 124)

theorem lawful_inspect : Lowering.codec.list.Lawful 126 :=
  Json.Codec.lawful_list (Lowering.lawful 122)

theorem lawful_decompiled : Decompilation.codec.optional.Lawful 126 :=
  Json.Codec.lawful_optional (Decompilation.lawful 123) fun _ => nofun

theorem plain_findings (session : Session) : Plain maxDepth (findings session) := by
  refine .object ?_
  rintro member hmem
  simp only [List.mem_cons, List.not_mem_nil, or_false] at hmem
  rcases hmem with rfl | rfl | rfl
  · exact lawful_sections.plain _
  · exact lawful_inspect.plain _
  · exact lawful_decompiled.plain _

/-- The three members in the order of their keys. -/
theorem sorted_findings (session : Session) :
    (findings session).sorted = .object
      [("decompiled",
          (Decompilation.codec.optional.toJson (session.shown.map (·.findings))).sorted),
        ("inspect", (Lowering.codec.list.toJson session.lowerings).sorted),
        ("sections", (KnownSection.codec.list.toJson session.sections).sorted)] := by
  have hfirst : "decompiled" < "inspect" := by decide
  have hlast : "inspect" < "sections" := by decide
  simp only [findings, Json.sorted, Json.sortedValues]
  rw [Json.sortMembers, List.foldl_cons, List.foldl_cons, List.foldl_cons, List.foldl_nil,
    Json.insertMember, Json.insertMember_cons_of_lt hlast, Json.insertMember_cons_of_lt hfirst]

theorem tells_of_sorted (session : Session) :
    ∃ members, (findings session).sorted = .object members ∧ Tells session members := by
  refine ⟨_, sorted_findings session, ?_, ?_, ?_⟩
  · exact congrArg some (lawful_sections.accepts session.sections).ofJson
  · exact congrArg some (lawful_inspect.accepts session.lowerings).ofJson
  · exact congrArg some (lawful_decompiled.accepts (session.shown.map (·.findings))).ofJson

/-- What is printed as JSON is one document and a line end, and it tells of the session. -/
theorem printed_tells (session : Session) :
    ∃ body members, printed true session = body ++ "\n" ∧
      Json.parse body = .ok (.object members) ∧
      Json.parse (body ++ "\n") = .ok (.object members) ∧ Tells session members := by
  obtain ⟨members, hmembers, htells⟩ := tells_of_sorted session
  have hparse (gap : String) (hgap : ∀ ch ∈ gap.toList, Json.Cursor.isGap ch = true) :
      Json.parse ((findings session).sorted.pretty ++ gap) = .ok (.object members) := by
    rw [Json.parse_pretty (plain_findings session).sorted hgap, Json.sorted_sorted, hmembers]
  have hbody := hparse "" (by simp)
  rw [String.append_empty] at hbody
  exact ⟨_, members, rfl, hbody, hparse "\n" (by simp [Json.Cursor.isGap]), htells⟩

end Report

namespace CommandLine

/-! ## The sections of a run -/

theorem nodup_starts_found (options : Options) (link : Link) :
    (Session.starts (found options link)).Nodup := by
  have hnew : ({} : Session).Tidy := ⟨List.nodup_nil, List.forall_mem_nil _⟩
  exact (hnew.merge ((analyzed options link).1.join.getD [])).starts

theorem starts_selecting (sections : List KnownSection) :
    Session.starts (sections.map selecting) = Session.starts sections := by
  rw [Session.starts, List.map_map]
  rfl

/-- At the end of a run exactly the analyzed ones among distinct sections are selected. -/
theorem selecting_found (options : Options) (link : Link) :
    (∀ s ∈ (found options link).map selecting, s.selected = s.analyzed) ∧
      (Session.starts ((found options link).map selecting)).Nodup := by
  rw [starts_selecting]
  refine ⟨?_, nodup_starts_found options link⟩
  intro s hs
  obtain ⟨before, -, rfl⟩ := List.mem_map.mp hs
  rfl

/-- A successful run that was asked for JSON prints one document and a line end. The document gives
the sections, the inspection and the decompilation that the session holds at the end, and the sections
are distinct and selected if they are analyzed. -/
theorem output_tells_session (start : String → List String → Except SystemError Engine)
    (options : Options) (files : Files) (fromEnvironment : Option Path) (hjson : options.json = true)
    (result : Result) (hresult : (run start options files fromEnvironment).result = some result)
    (hexit : result.exitCode = 0) :
    ∃ desk body members, result.desk = some desk ∧
      result.output options.json = body ++ "\n" ∧
      Json.parse body = .ok (.object members) ∧
      Json.parse (result.output options.json) = .ok (.object members) ∧
      Report.Tells desk.session members ∧
      (∀ s ∈ desk.session.sections, s.selected = s.analyzed) ∧
      (Session.starts desk.session.sections).Nodup := by
  obtain ⟨desk, link, hdesk, hdefeat, hsession⟩ :=
    (ran start options files fromEnvironment).holds hresult hexit
  obtain ⟨body, members, hprinted, hbody, hwhole, htells⟩ := Report.printed_tells desk.session
  have houtput : result.output options.json = body ++ "\n" := by
    rw [hjson, Result.output, hdesk, hdefeat]
    exact hprinted
  exact ⟨desk, body, members, hdesk, houtput, hbody, houtput ▸ hwhole, htells,
    hsession.sections ▸ selecting_found options link⟩

/-- An engine that names a section twice, and whose code has to be escaped. -/
theorem output_tells_session_of_repeated_section :
    let sections := "[\x7b\"startAddress\":32,\"analyzed\":false\x7d," ++
      "\x7b\"startAddress\":16,\"analyzed\":false\x7d,\x7b\"startAddress\":32,\"analyzed\":true\x7d]"
    let code := "\x7b\"ir\":[],\"assembly\":[],\"decompiled\":\"a \\\"b\\\"\\n\\u2028\"\x7d"
    let engine : Engine := .ofTurns
      [⟨Bytes.ofText "\x7b\"id\":1\x7d\n", .waits⟩,
        ⟨Bytes.ofText ("\x7b\"id\":2,\"ok\":" ++ sections ++ "\x7d\n"), .waits⟩,
        ⟨Bytes.ofText ("\x7b\"id\":3,\"ok\":" ++ code ++ "\x7d\n"), .ends⟩]
    let options : Options := { binary := .ofText "a.out", json := true }
    ∃ result, (run (fun _ _ => .ok engine) options {} none).result = some result ∧
      result.exitCode = 0 ∧ ∃ desk body members, result.desk = some desk ∧
      result.output true = body ++ "\n" ∧ Json.parse body = .ok (.object members) ∧
      Report.Tells desk.session members ∧
      desk.session.sections = [⟨⟨32⟩, none, true, true⟩, ⟨⟨16⟩, none, false, false⟩] ∧
      desk.session.shown.map (·.findings.code) = some "a \"b\"\n\u2028" := by
  intro sections code engine options
  have hrun : (run (fun _ _ => .ok engine) options {} none).result.map
      (fun result => (result.exitCode, result.desk.map fun desk =>
        (desk.session.sections, desk.session.shown.map (·.findings.code)))) =
      some (0, some ([⟨⟨32⟩, none, true, true⟩, ⟨⟨16⟩, none, false, false⟩],
        some "a \"b\"\n\u2028")) := by
    decide +kernel
  obtain ⟨result, hresult, hmap⟩ := Option.map_eq_some_iff.mp hrun
  obtain ⟨hexit, hsession⟩ := Prod.mk.inj hmap
  obtain ⟨desk, body, members, hdesk, houtput, hbody, -, htells, -⟩ :=
    output_tells_session (fun _ _ => .ok engine) options {} none rfl result hresult hexit
  rw [hdesk, Option.map_some, Option.some.injEq, Prod.mk.injEq] at hsession
  exact ⟨result, hresult, hexit, desk, body, members, hdesk, houtput, hbody, htells, hsession⟩

end CommandLine

end DecompilerDesk
