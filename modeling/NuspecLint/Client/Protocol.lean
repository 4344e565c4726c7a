import NuspecLint.Client.Schema

/-!
# The messages of the protocol

The messages that the language server protocol knows by their methods, as far as their contents
matter here.

**Results.**
* `Protocol.messages`: the schemas of messages by method.
* `Protocol.failure`: the schema of an answer that tells of an error.
-/

namespace NuspecLint
namespace Protocol

open Schema

/-- The entry that marks an object as a message. -/
def mark : String := "jsonrpc"

/-- The parts that all messages with a method have, given what they carry. -/
def messageParts (params : Schema) : List (String × String × Schema) :=
  [("params", "params", params), ("method", "method", text), (mark, mark, text)]

/-- A message that waits for no answer. -/
def notification (name : String) (params : Schema) : Schema :=
  object name (messageParts params)

/-- A message that waits for an answer, under an identifier. -/
def request (name : String) (params : Schema) : Schema :=
  object name (("id", "id", scalar) :: messageParts params)

/-- What went wrong. -/
def responseError : Schema :=
  object "ResponseError" [
    ("code", "code", integer),
    ("message", "message", text),
    ("data", "data", optional anything)]

/-- An answer that tells of an error. -/
def failure : Schema :=
  object "ResponseErrorMessage" [
    ("id", "id", optional scalar),
    ("error", "error", optional responseError),
    (mark, mark, text)]

/-- Nothing is carried. -/
def nothing : Schema := optional anything

/-- The document that a message is about. -/
def document : Schema := object "TextDocumentIdentifier" [("uri", "uri", text)]

/-- The part that names a document. -/
def documentPart : String × String × Schema := ("textDocument", "text_document", document)

/-- The parts that name a place in a document. -/
def placeParts : List (String × String × Schema) :=
  [documentPart, ("position", "position", position)]

/-- The part under which progress is reported. -/
def progressPart : String × String × Schema :=
  ("workDoneToken", "work_done_token", optional scalar)

/-- The parts under which progress and first results are reported. -/
def resultParts : List (String × String × Schema) :=
  [progressPart, ("partialResultToken", "partial_result_token", optional scalar)]

/-- A folder of the client. -/
def folder : Schema :=
  object "WorkspaceFolder" [("uri", "uri", text), ("name", "name", text)]

/-- A document that is opened. -/
def openedDocument : Schema :=
  object "TextDocumentItem" [
    ("uri", "uri", text),
    ("languageId", "language_id", scalar),
    ("version", "version", integer),
    ("text", "text", text)]

/-- A document with its version. -/
def versionedDocument : Schema :=
  object "VersionedTextDocumentIdentifier" [("version", "version", integer), ("uri", "uri", text)]

/-- A change of a document: of a range, or of the whole text. -/
def contentChange : Schema :=
  byKey "range"
    (object "TextDocumentContentChangePartial" [
      ("range", "range", range),
      ("text", "text", text),
      ("rangeLength", "range_length", optional natural)])
    (object "TextDocumentContentChangeWholeDocument" [("text", "text", text)])

/-- Why a document is about to be saved. -/
def saveReason : Schema :=
  member "TextDocumentSaveReason"
    [(.integer 1, "Manual"), (.integer 2, "AfterDelay"), (.integer 3, "FocusOut")]

/-- How much the server is to tell of its work. -/
def traceValue : Schema :=
  member "TraceValue"
    [(.string "off", "Off"), (.string "messages", "Messages"), (.string "verbose", "Verbose")]

/-- What kind of message a user is shown. -/
def messageType : Schema :=
  member "MessageType"
    [(.integer 1, "Error"), (.integer 2, "Warning"), (.integer 3, "Info"), (.integer 4, "Log"),
      (.integer 5, "Debug")]

/-- What happened to a file. -/
def fileEvent : Schema :=
  object "FileEvent" [
    ("uri", "uri", text),
    ("type", "type", member "FileChangeType"
      [(.integer 1, "Created"), (.integer 2, "Changed"), (.integer 3, "Deleted")])]

/-- What a client can do, as far as it concerns everything. -/
def generalCapabilities : Schema :=
  object "GeneralClientCapabilities" [
    ("staleRequestSupport", "stale_request_support", optional anything),
    ("regularExpressions", "regular_expressions", optional anything),
    ("markdown", "markdown", optional anything),
    ("positionEncodings", "position_encodings", optional (sequence scalar))]

/-- What a client can do. -/
def capabilities : Schema :=
  object "ClientCapabilities" [
    ("workspace", "workspace", optional anything),
    ("textDocument", "text_document", optional anything),
    ("notebookDocument", "notebook_document", optional anything),
    ("window", "window", optional anything),
    ("general", "general", optional generalCapabilities),
    ("experimental", "experimental", optional anything)]

/-- How a client introduces itself. -/
def introduction : Schema :=
  object "InitializeParams" [
    ("capabilities", "capabilities", capabilities),
    ("processId", "process_id", optional integer),
    ("clientInfo", "client_info", optional (object "ClientInfo" [
      ("name", "name", text), ("version", "version", optional text)])),
    ("locale", "locale", optional text),
    ("rootPath", "root_path", optional text),
    ("rootUri", "root_uri", optional text),
    ("initializationOptions", "initialization_options", optional anything),
    ("trace", "trace", optional traceValue),
    progressPart,
    ("workspaceFolders", "workspace_folders", optional (sequence folder))]

/-- How text is to be formatted. -/
def formattingOptions : Schema :=
  object "FormattingOptions" [
    ("tabSize", "tab_size", natural),
    ("insertSpaces", "insert_spaces", truth),
    ("trimTrailingWhitespace", "trim_trailing_whitespace", optional truth),
    ("insertFinalNewline", "insert_final_newline", optional truth),
    ("trimFinalNewlines", "trim_final_newlines", optional truth)]

/-- How completion was asked for. -/
def completionContext : Schema :=
  object "CompletionContext" [
    ("triggerKind", "trigger_kind", member "CompletionTriggerKind"
      [(.integer 1, "Invoked"), (.integer 2, "TriggerCharacter"),
        (.integer 3, "TriggerForIncompleteCompletions")]),
    ("triggerCharacter", "trigger_character", optional text)]

/-- Files of which only their names are told. -/
def files (name item : String) : Schema :=
  object name [("files", "files", sequence (object item [("uri", "uri", text)]))]

/-- Files that have got other names. -/
def renamedFiles : Schema :=
  object "RenameFilesParams" [
    ("files", "files", sequence (object "FileRename" [
      ("oldUri", "old_uri", text), ("newUri", "new_uri", text)]))]

/-- A message to be shown or logged. -/
def userMessage (name : String) : Schema :=
  object name [("type", "type", messageType), ("message", "message", text)]

/-- The messages about the connection, by method. -/
def connectionMessages : List (String × Schema) :=
  [("initialize", request "InitializeRequest" introduction),
   ("initialized", notification "InitializedNotification" (object "InitializedParams" [])),
   ("shutdown", request "ShutdownRequest" nothing),
   ("exit", notification "ExitNotification" nothing),
   ("$/cancelRequest", notification "CancelNotification"
     (object "CancelParams" [("id", "id", scalar)])),
   ("$/progress", notification "ProgressNotification"
     (object "ProgressParams" [("token", "token", scalar), ("value", "value", nothing)])),
   ("$/setTrace", notification "SetTraceNotification"
     (object "SetTraceParams" [("value", "value", traceValue)])),
   ("$/logTrace", notification "LogTraceNotification"
     (object "LogTraceParams" [
       ("message", "message", text), ("verbose", "verbose", optional text)])),
   ("telemetry/event", notification "TelemetryEventNotification" nothing),
   ("window/showMessage", notification "ShowMessageNotification" (userMessage "ShowMessageParams")),
   ("window/logMessage", notification "LogMessageNotification" (userMessage "LogMessageParams")),
   ("window/workDoneProgress/create", request "WorkDoneProgressCreateRequest"
     (object "WorkDoneProgressCreateParams" [("token", "token", scalar)])),
   ("window/workDoneProgress/cancel", notification "WorkDoneProgressCancelNotification"
     (object "WorkDoneProgressCancelParams" [("token", "token", scalar)]))]

/-- The messages about what happened to a document, by method. -/
def synchronizationMessages : List (String × Schema) :=
  [("textDocument/didOpen", notification "DidOpenTextDocumentNotification"
     (object "DidOpenTextDocumentParams" [("textDocument", "text_document", openedDocument)])),
   ("textDocument/didChange", notification "DidChangeTextDocumentNotification"
     (object "DidChangeTextDocumentParams" [
       ("textDocument", "text_document", versionedDocument),
       ("contentChanges", "content_changes", sequence contentChange)])),
   ("textDocument/didSave", notification "DidSaveTextDocumentNotification"
     (object "DidSaveTextDocumentParams" [documentPart, ("text", "text", optional text)])),
   ("textDocument/didClose", notification "DidCloseTextDocumentNotification"
     (object "DidCloseTextDocumentParams" [documentPart])),
   ("textDocument/willSave", notification "WillSaveTextDocumentNotification"
     (object "WillSaveTextDocumentParams" [documentPart, ("reason", "reason", saveReason)])),
   ("textDocument/willSaveWaitUntil", request "WillSaveTextDocumentWaitUntilRequest"
     (object "WillSaveTextDocumentParams" [documentPart, ("reason", "reason", saveReason)]))]

/-- The messages about the files and settings of a client, by method. -/
def workspaceMessages : List (String × Schema) :=
  [("workspace/didChangeConfiguration", notification "DidChangeConfigurationNotification"
     (object "DidChangeConfigurationParams" [("settings", "settings", nothing)])),
   ("workspace/didChangeWatchedFiles", notification "DidChangeWatchedFilesNotification"
     (object "DidChangeWatchedFilesParams" [("changes", "changes", sequence fileEvent)])),
   ("workspace/didChangeWorkspaceFolders", notification "DidChangeWorkspaceFoldersNotification"
     (object "DidChangeWorkspaceFoldersParams" [
       ("event", "event", object "WorkspaceFoldersChangeEvent" [
         ("added", "added", sequence folder), ("removed", "removed", sequence folder)])])),
   ("workspace/didCreateFiles", notification "DidCreateFilesNotification"
     (files "CreateFilesParams" "FileCreate")),
   ("workspace/didDeleteFiles", notification "DidDeleteFilesNotification"
     (files "DeleteFilesParams" "FileDelete")),
   ("workspace/didRenameFiles", notification "DidRenameFilesNotification" renamedFiles),
   ("workspace/willCreateFiles", request "WillCreateFilesRequest"
     (files "CreateFilesParams" "FileCreate")),
   ("workspace/willDeleteFiles", request "WillDeleteFilesRequest"
     (files "DeleteFilesParams" "FileDelete")),
   ("workspace/willRenameFiles", request "WillRenameFilesRequest" renamedFiles),
   ("workspace/workspaceFolders", request "WorkspaceFoldersRequest" nothing),
   ("workspace/codeLens/refresh", request "CodeLensRefreshRequest" nothing),
   ("workspace/diagnostic/refresh", request "DiagnosticRefreshRequest" nothing),
   ("workspace/foldingRange/refresh", request "FoldingRangeRefreshRequest" nothing),
   ("workspace/inlayHint/refresh", request "InlayHintRefreshRequest" nothing),
   ("workspace/inlineValue/refresh", request "InlineValueRefreshRequest" nothing),
   ("workspace/semanticTokens/refresh", request "SemanticTokensRefreshRequest" nothing),
   ("workspace/symbol", request "WorkspaceSymbolRequest"
     (object "WorkspaceSymbolParams" (("query", "query", text) :: resultParts))),
   ("workspace/executeCommand", request "ExecuteCommandRequest"
     (object "ExecuteCommandParams" [
       ("command", "command", text),
       ("arguments", "arguments", optional (sequence anything)),
       progressPart])),
   ("workspace/configuration", request "ConfigurationRequest"
     (object "ConfigurationParams" [
       ("items", "items", sequence (object "ConfigurationItem" [
         ("scopeUri", "scope_uri", optional text), ("section", "section", optional text)]))]))]

/-- The messages that ask about a document or a place in it, by method. -/
def questionMessages : List (String × Schema) :=
  [("textDocument/hover", request "HoverRequest"
     (object "HoverParams" (placeParts ++ [progressPart]))),
   ("textDocument/signatureHelp", request "SignatureHelpRequest"
     (object "SignatureHelpParams"
       (placeParts ++ [("context", "context", optional anything), progressPart]))),
   ("textDocument/completion", request "CompletionRequest"
     (object "CompletionParams"
       (placeParts ++ ("context", "context", optional completionContext) :: resultParts))),
   ("textDocument/definition", request "DefinitionRequest"
     (object "DefinitionParams" (placeParts ++ resultParts))),
   ("textDocument/declaration", request "DeclarationRequest"
     (object "DeclarationParams" (placeParts ++ resultParts))),
   ("textDocument/typeDefinition", request "TypeDefinitionRequest"
     (object "TypeDefinitionParams" (placeParts ++ resultParts))),
   ("textDocument/implementation", request "ImplementationRequest"
     (object "ImplementationParams" (placeParts ++ resultParts))),
   ("textDocument/references", request "ReferencesRequest"
     (object "ReferenceParams"
       (("context", "context", object "ReferenceContext"
         [("includeDeclaration", "include_declaration", truth)]) :: placeParts ++ resultParts))),
   ("textDocument/documentHighlight", request "DocumentHighlightRequest"
     (object "DocumentHighlightParams" (placeParts ++ resultParts))),
   ("textDocument/prepareRename", request "PrepareRenameRequest"
     (object "PrepareRenameParams" (placeParts ++ [progressPart]))),
   ("textDocument/rename", request "RenameRequest"
     (object "RenameParams" (placeParts ++ [("newName", "new_name", text), progressPart]))),
   ("textDocument/moniker", request "MonikerRequest"
     (object "MonikerParams" (placeParts ++ resultParts))),
   ("textDocument/linkedEditingRange", request "LinkedEditingRangeRequest"
     (object "LinkedEditingRangeParams" (placeParts ++ [progressPart]))),
   ("textDocument/prepareCallHierarchy", request "CallHierarchyPrepareRequest"
     (object "CallHierarchyPrepareParams" (placeParts ++ [progressPart]))),
   ("textDocument/prepareTypeHierarchy", request "TypeHierarchyPrepareRequest"
     (object "TypeHierarchyPrepareParams" (placeParts ++ [progressPart]))),
   ("textDocument/documentSymbol", request "DocumentSymbolRequest"
     (object "DocumentSymbolParams" (documentPart :: resultParts))),
   ("textDocument/foldingRange", request "FoldingRangeRequest"
     (object "FoldingRangeParams" (documentPart :: resultParts))),
   ("textDocument/documentLink", request "DocumentLinkRequest"
     (object "DocumentLinkParams" (documentPart :: resultParts))),
   ("textDocument/documentColor", request "DocumentColorRequest"
     (object "DocumentColorParams" (documentPart :: resultParts))),
   ("textDocument/codeLens", request "CodeLensRequest"
     (object "CodeLensParams" (documentPart :: resultParts))),
   ("textDocument/semanticTokens/full", request "SemanticTokensRequest"
     (object "SemanticTokensParams" (documentPart :: resultParts))),
   ("textDocument/semanticTokens/range", request "SemanticTokensRangeRequest"
     (object "SemanticTokensRangeParams"
       (documentPart :: ("range", "range", range) :: resultParts))),
   ("textDocument/selectionRange", request "SelectionRangeRequest"
     (object "SelectionRangeParams"
       (documentPart :: ("positions", "positions", sequence position) :: resultParts))),
   ("textDocument/inlayHint", request "InlayHintRequest"
     (object "InlayHintParams" [documentPart, ("range", "range", range), progressPart])),
   ("textDocument/diagnostic", request "DocumentDiagnosticRequest"
     (object "DocumentDiagnosticParams"
       (documentPart :: ("identifier", "identifier", optional text) ::
         ("previousResultId", "previous_result_id", optional text) :: resultParts))),
   ("textDocument/formatting", request "DocumentFormattingRequest"
     (object "DocumentFormattingParams"
       [documentPart, ("options", "options", formattingOptions), progressPart]))]

/-- The schemas of messages by method. -/
def messages : List (String × Schema) :=
  connectionMessages ++ synchronizationMessages ++ workspaceMessages ++ questionMessages

end Protocol
end NuspecLint
