import ApiMock.Blueprint.Basic
import ApiMock.Emit.Lines
import ApiMock.Json.Encode
/-!
# Emit — store files

The store of a group: its seed records as a literal and the operations
that the routes of the group are served by. Records that no literal can
hold stop the generation.
-/

namespace ApiMock

namespace Emit

/-- The lines of a store before its operations. `records` is the literal
of its seed records. -/
def storeHead (g : Group) (records : String) : List String := [
  "// Generated Database operations for " ++ g.key,
  "import \x7b",
  "  dbManager,",
  "  DbRecord,",
  "  createDbRecord,",
  "  updateDbRecord,",
  "  queryByFilter,",
  "  sortRecords,",
  "  paginateRecords",
  "\x7d from './db-setup';",
  "",
  "const SEED_RECORDS: any[] = " ++ records ++ ";",
  "",
  "function notFound(id: string): Error \x7b",
  "  const error = new Error(`" ++ g.key ++ " with id '$\x7bid\x7d' not found`);",
  "  (error as any).status = 404;",
  "  return error;",
  "\x7d",
  "",
  "export class " ++ g.dbClass ++ " \x7b",
  "  private readonly storeName = '" ++ g.slug ++ "';",
  "",
  "  async init(): Promise<void> \x7b",
  "    await dbManager.init();",
  "  \x7d",
  "",
  "  private async request<T>(mode: IDBTransactionMode, action: (store: IDBObjectStore) => IDBRequest): Promise<T> \x7b",
  "    await this.init();",
  "    return new Promise((resolve, reject) => \x7b",
  "      const transaction = dbManager.getDatabase().transaction(this.storeName, mode);",
  "      const request = action(transaction.objectStore(this.storeName));",
  "      request.onsuccess = () => resolve(request.result as T);",
  "      request.onerror = () => reject(new Error(`" ++ g.key ++
    " store error: $\x7brequest.error\x7d`));",
  "    \x7d);",
  "  \x7d",
  ""]

/-- The operations of a store. -/
def storeOperations : List String := [
  "  async findAll(params?: any): Promise<DbRecord[]> \x7b",
  "    let records = await this.request<DbRecord[]>('readonly', store => store.getAll());",
  "",
  "    if (params) \x7b",
  "      if (params.filter) \x7b",
  "        records = queryByFilter(records, params.filter);",
  "      \x7d",
  "      if (params.sortBy) \x7b",
  "        records = sortRecords(records, params.sortBy, params.sortOrder);",
  "      \x7d",
  "      if (params.page || params.pageSize) \x7b",
  "        return paginateRecords(records, params.page, params.pageSize).data;",
  "      \x7d",
  "    \x7d",
  "",
  "    return records;",
  "  \x7d",
  "",
  "  async query(params?: any): Promise<DbRecord[]> \x7b",
  "    return this.findAll(params);",
  "  \x7d",
  "",
  "  async findById(id: string): Promise<DbRecord> \x7b",
  "    const record = await this.request<DbRecord | undefined>('readonly', store => store.get(id));",
  "    if (!record) \x7b",
  "      throw notFound(id);",
  "    \x7d",
  "    return record;",
  "  \x7d",
  "",
  "  async create(data: any): Promise<DbRecord> \x7b",
  "    const record = createDbRecord(data);",
  "    await this.request('readwrite', store => store.add(record));",
  "    return record;",
  "  \x7d",
  "",
  "  async update(id: string, updates: any): Promise<DbRecord> \x7b",
  "    const existing = await this.findById(id);",
  "    const record = updateDbRecord(existing, updates);",
  "    await this.request('readwrite', store => store.put(record));",
  "    return record;",
  "  \x7d",
  "",
  "  async delete(id: string): Promise<void> \x7b",
  "    await this.findById(id);",
  "    await this.request('readwrite', store => store.delete(id));",
  "  \x7d",
  "",
  "  async clearAll(): Promise<void> \x7b",
  "    await this.request('readwrite', store => store.clear());",
  "  \x7d",
  "",
  "  async getStats(): Promise<\x7b totalRecords: number; lastUpdated: Date \x7d> \x7b",
  "    const records = await this.findAll();",
  "    const lastUpdated = records.length > 0",
  "      ? new Date(Math.max(...records.map(r => new Date(r.updatedAt).getTime())))",
  "      : new Date();",
  "    return \x7b totalRecords: records.length, lastUpdated \x7d;",
  "  \x7d",
  "",
  "  async exportAll(): Promise<DbRecord[]> \x7b",
  "    return this.findAll();",
  "  \x7d",
  "",
  "  async importAll(data: DbRecord[]): Promise<void> \x7b",
  "    await this.clearAll();",
  "    for (const record of data) \x7b",
  "      await this.request('readwrite', store => store.add(record));",
  "    \x7d",
  "  \x7d",
  ""]

/-- The operation that puts the seed records into an empty store. -/
def storeSeeding (g : Group) : List String := [
  "  /**",
  "   * Seed the database with initial data",
  "   */",
  "  async seedData(): Promise<void> \x7b",
  "    if (SEED_RECORDS.length === 0) \x7b",
  "      console.log('No seed data provided for " ++ g.key ++ "');",
  "      return;",
  "    \x7d",
  "",
  "    const existing = await this.findAll();",
  "    if (existing.length > 0) \x7b",
  "      console.log('" ++ g.key ++ " database already contains data, skipping seed');",
  "      return;",
  "    \x7d",
  "",
  "    const records = SEED_RECORDS.map(item => (item.id ? \x7b createdAt: new Date(), updatedAt: new Date(), ...item \x7d : createDbRecord(item)));",
  "    await this.importAll(records);",
  "    console.log(`Seeded " ++ g.key ++ " database with $\x7brecords.length\x7d records`);",
  "  \x7d",
  "\x7d"]

/-- The lines of the store of a group. `records` is the literal of its seed records. -/
def storeLines (g : Group) (records : String) : List String :=
  storeHead g records ++ storeOperations ++ storeSeeding g

/-- The file of the store of a group. -/
def storeFile (g : Group) : Except Failure String := do
  let records ← Json.literalBlock (.list g.seed)
  return unlines (storeLines g records)

end Emit

end ApiMock
