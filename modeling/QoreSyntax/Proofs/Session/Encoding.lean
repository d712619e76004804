import QoreSyntax.Proofs.Text.Utf8
import QoreSyntax.Session.Basic

namespace QoreSyntax.Session

theorem parseFile_of_ok (s : Session) {files : Files} {path : String} {bytes : List UInt8}
    (h : files path = .ok bytes) :
    s.parseFile files path = (.ok (s.parseBytes bytes).1, (s.parseBytes bytes).2) := by
  rw [parseFile, h]

/-- A file that cannot be read leaves the session as it is. -/
theorem parseFile_of_error (s : Session) {files : Files} {path : String} {fault : ReadFault}
    (h : files path = .error fault) : s.parseFile files path = (.error (.read path fault), s) := by
  rw [parseFile, h]

theorem parseBytes_toUTF8 (s : Session) (text : String) :
    s.parseBytes text.toUTF8.data.toList = s.parseString text := by
  rw [parseBytes, Text.decode_toUTF8, parseString]

/-- Whatever the session has come to before, it gives the same status for a text, for its bytes and
for a file that holds them, and comes to the same. -/
theorem text_bytes_and_file_agree (s : Session) (text : String) (files : Files) (path : String)
    (h : files path = .ok text.toUTF8.data.toList) :
    s.parseBytes text.toUTF8.data.toList = s.parseString text ∧
      s.parseFile files path = (.ok (s.parseString text).1, (s.parseString text).2) := by
  refine ⟨s.parseBytes_toUTF8 text, ?_⟩
  rw [s.parseFile_of_ok h, s.parseBytes_toUTF8 text]

/-- Characters of one to four bytes in a file, read by a session that has failed before. -/
theorem text_bytes_and_file_agree_wide :
    let files : Files := fun path =>
      if path = "wide.q" then
        .ok [0x22, 0xc3, 0xa9, 0xe2, 0x82, 0xac, 0xf0, 0x9f, 0x98, 0x80, 0x22, 0x3b]
      else .error .notFound
    let s := ((new Options.standard).parseString "x = ;").2
    files "wide.q" = .ok "\"é€😀\";".toUTF8.data.toList ∧
      s.parseBytes "\"é€😀\";".toUTF8.data.toList = s.parseString "\"é€😀\";" ∧
      s.parseFile files "wide.q"
        = (.ok (s.parseString "\"é€😀\";").1, (s.parseString "\"é€😀\";").2) := by
  intro files s
  have hfile : files "wide.q" = .ok "\"é€😀\";".toUTF8.data.toList := by decide
  exact ⟨hfile, text_bytes_and_file_agree s _ files "wide.q" hfile⟩

end QoreSyntax.Session
