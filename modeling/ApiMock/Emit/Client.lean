import ApiMock.Blueprint.Basic
import ApiMock.Emit.Lines
/-!
# Emit — client files

The client of a group: a class with a method for every route, one
instance of it, and a function for every route bound to that instance. A
method waits, fails at random if the settings say so, checks its body,
and answers with what the store gives.
-/

namespace ApiMock

namespace Emit

/-- The text of the comment of a method, which must not end early. -/
def commentDoc (r : Route) : String :=
  flat (String.ofList (Text.replacePair '*' '/' ['*', '\\', '/'] r.doc.toList))

/-- The lines of a client before its methods. -/
def clientHead (g : Group) : List String := [
  "// Generated API functions for " ++ g.key,
  "import \x7b ApiResponse, ApiError \x7d from '../types';",
  "import \x7b " ++ g.dbClass ++ " \x7d from '../db/" ++ g.slug ++ "-db';",
  "import \x7b defaultConfig \x7d from '../config/api-config';",
  "",
  "/**",
  " * " ++ g.key ++ " API Client",
  " * Generated from Swagger specification",
  " */",
  "export class " ++ g.apiClass ++ " \x7b",
  "  private db: " ++ g.dbClass ++ ";",
  "",
  "  constructor() \x7b",
  "    this.db = new " ++ g.dbClass ++ "();",
  "  \x7d",
  "",
  "  /**",
  "   * Initialize the database and seed data if available",
  "   */",
  "  async init(): Promise<void> \x7b",
  "    await this.db.init();",
  "    await this.db.seedData();",
  "  \x7d",
  ""]

/-- The comment of a method. -/
def methodComment (r : Route) : List String := [
  "  /**",
  "   * " ++ commentDoc r,
  "   * @method " ++ r.method,
  "   * @path " ++ r.path,
  "   */"]

/-- A method up to the check of its body. -/
def methodHead (r : Route) : List String := [
  "  async " ++ r.functionName ++ "(" ++ r.signature ++ "): Promise<ApiResponse<any>> \x7b",
  "    try \x7b",
  "      // Simulate network delay",
  "      if (defaultConfig.responseDelay > 0) \x7b",
  "        await new Promise(resolve => setTimeout(resolve, defaultConfig.responseDelay));",
  "      \x7d",
  "",
  "      // Simulate failures",
  "      if (defaultConfig.errorRate > 0 && Math.random() < defaultConfig.errorRate) \x7b",
  "        throw new Error('Simulated failure for " ++ r.method ++ " " ++ r.path ++ "');",
  "      \x7d",
  "",
  "      if (defaultConfig.enableLogging) \x7b",
  "        console.log(`[" ++ r.method ++ "] " ++ r.path ++ "`, \x7b " ++
    String.intercalate ", " r.loggedNames ++ " \x7d);",
  "      \x7d"]

/-- The check of a body. -/
def bodyGuard : List String := [
  "",
  "      if (defaultConfig.enableValidation && (body === null || typeof body !== 'object')) \x7b",
  "        throw new Error('Request body must be an object');",
  "      \x7d"]

/-- A method behind the check of its body. -/
def methodTail (r : Route) : List String := [
  "",
  "      const result = await this.db." ++ r.intent.storeOperation ++ "(" ++ r.storeArguments ++
    ");",
  "",
  "      return \x7b",
  "        data: result,",
  "        status: " ++ toString r.successStatus ++ ",",
  "        statusText: '" ++ r.successText ++ "',",
  "        headers: \x7b",
  "          'Content-Type': 'application/json',",
  "          'X-Generated-By': 'swagger-to-localdb'",
  "        \x7d",
  "      \x7d;",
  "    \x7d catch (error) \x7b",
  "      const apiError: ApiError = \x7b",
  "        message: (error as Error).message,",
  "        status: (error as any)?.status ?? " ++ toString r.errorStatus ++ ",",
  "        details: error",
  "      \x7d;",
  "",
  "      if (defaultConfig.enableLogging) \x7b",
  "        console.error(`[" ++ r.method ++ "] " ++ r.path ++ " - Error:`, apiError);",
  "      \x7d",
  "",
  "      throw apiError;",
  "    \x7d",
  "  \x7d",
  ""]

/-- The method of a route. The body is checked if an argument has its name. -/
def method (r : Route) : List String :=
  methodComment r ++ methodHead r ++
    (if r.loggedNames.contains Route.bodyName then bodyGuard else []) ++ methodTail r

/-- The lines of a client behind its methods. -/
def clientTail (g : Group) : List String := [
  "  /**",
  "   * Clear all data for " ++ g.key,
  "   */",
  "  async clearAllData(): Promise<void> \x7b",
  "    await this.db.clearAll();",
  "  \x7d",
  "",
  "  /**",
  "   * Get database statistics",
  "   */",
  "  async getStats(): Promise<\x7b totalRecords: number; lastUpdated: Date \x7d> \x7b",
  "    return await this.db.getStats();",
  "  \x7d",
  "",
  "  /**",
  "   * Export all data",
  "   */",
  "  async exportData(): Promise<any[]> \x7b",
  "    return await this.db.exportAll();",
  "  \x7d",
  "",
  "  /**",
  "   * Import data",
  "   */",
  "  async importData(data: any[]): Promise<void> \x7b",
  "    await this.db.importAll(data);",
  "  \x7d",
  "\x7d",
  "",
  "// Create singleton instance",
  "const " ++ g.instanceName ++ " = new " ++ g.apiClass ++ "();",
  "",
  "// Export convenience functions"]

/-- The function of a route. -/
def boundFunction (g : Group) (r : Route) : String :=
  "export const " ++ r.functionName ++ " = " ++ g.instanceName ++ "." ++ r.functionName ++
    ".bind(" ++ g.instanceName ++ ");"

/-- The exports of the instance. -/
def instanceExports (g : Group) : List String := [
  "",
  "export \x7b " ++ g.instanceName ++ " \x7d;",
  "export default " ++ g.instanceName ++ ";"]

/-- The lines of the client of a group. -/
def clientLines (g : Group) : List String :=
  clientHead g ++ g.routes.flatMap method ++ clientTail g ++ g.routes.map (boundFunction g) ++
    instanceExports g

/-- The file of the client of a group. -/
def clientFile (g : Group) : String := unlines (clientLines g)

end Emit

end ApiMock
